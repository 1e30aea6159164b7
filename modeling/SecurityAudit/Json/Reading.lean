import SecurityAudit.Json.RoundTrip

/-!
# What a reader can return

A scanner returns a proper suffix of its text (`Shorter`), so the fuel of `loads` is always
enough (`scanValue_fuel`), and from text without surrogates it returns a well-formed value
(`wellFormed_loads`): a pair of escapes is joined, a repeated key is assigned over, and an
integer keeps to the digit limit.
-/

namespace SecurityAudit

namespace JVal

/-- `rest` is what is left of `s` after something was read. -/
def Shorter (rest s : Str) : Prop := rest <:+ s ∧ rest.length < s.length

theorem Shorter.of_cons {rest s : Str} (c : CodePoint) (h : rest <:+ s) : Shorter rest (c :: s) :=
  ⟨h.trans (List.suffix_cons c s), by
    have := h.length_le
    simp only [List.length_cons]
    omega⟩

theorem Shorter.trans_suffix {r s t : Str} (h : Shorter r s) (h' : s <:+ t) : Shorter r t :=
  ⟨h.1.trans h', lt_of_lt_of_le h.2 h'.length_le⟩

theorem Shorter.suffix_trans {r s t : Str} (h : r <:+ s) (h' : Shorter s t) : Shorter r t :=
  ⟨h.trans h'.1, lt_of_le_of_lt h.length_le h'.2⟩

/-- Text without surrogates. -/
def Clean (s : Str) : Prop := ∀ c ∈ s, isSurrogate c = false

theorem Clean.suffix {r s : Str} (hs : Clean s) (h : r <:+ s) : Clean r :=
  fun c hc => hs c (h.subset hc)

theorem skipWs_suffix (s : Str) : skipWs s <:+ s := List.dropWhile_suffix _

theorem ok_map {α β : Type} {r : Scan α} {f : α × Str → β × Str} {x : β × Str}
    (h : r.map f = .ok x) : ∃ y, r = .ok y ∧ f y = x := by
  cases r with
  | error e => cases h
  | ok y => exact ⟨y, rfl, Except.ok.inj h⟩

/-! ## String literals -/

/-- A unit written as itself is not a surrogate. -/
def CleanUnits (us : List LitUnit) : Prop :=
  ∀ u ∈ us, u.escaped = false → isSurrogate u.point = false

theorem simpleEscape?_clean {e p : CodePoint} (h : simpleEscape? e = some p) :
    isSurrogate p = false := by
  unfold simpleEscape? at h
  split_ifs at h <;> cases h <;> rfl

theorem CleanUnits.cons {u : LitUnit} {us : List LitUnit}
    (hu : u.escaped = false → isSurrogate u.point = false) (hus : CleanUnits us) :
    CleanUnits (u :: us) := by
  intro v hv
  rcases List.mem_cons.mp hv with rfl | hv
  · exact hu
  · exact hus v hv

/-- One unit, written as `p`, and then what the rest of the literal gives. -/
theorem scanUnits_cons {p t : Str} {u : LitUnit} {us : List LitUnit} {rest : Str}
    (hu : Clean (p ++ t) → u.escaped = false → isSurrogate u.point = false)
    (ih : ∀ {us : List LitUnit} {rest : Str}, scanUnits t = .ok (us, rest) →
      Shorter rest t ∧ (Clean t → CleanUnits us))
    (h : (scanUnits t).map (fun r => (u :: r.1, r.2)) = .ok (us, rest)) :
    Shorter rest (p ++ t) ∧ (Clean (p ++ t) → CleanUnits us) := by
  obtain ⟨⟨us', rest'⟩, hscan, heq⟩ := ok_map h
  cases heq
  obtain ⟨hshort, hclean⟩ := ih hscan
  refine ⟨hshort.trans_suffix (List.suffix_append p t), fun hs => ?_⟩
  exact .cons (hu hs) (hclean (hs.suffix (List.suffix_append p t)))

theorem scanUnits_spec {s : Str} {us : List LitUnit} {rest : Str}
    (h : scanUnits s = .ok (us, rest)) : Shorter rest s ∧ (Clean s → CleanUnits us) := by
  induction s using scanUnits.induct generalizing us rest with
  | case1 => simp [scanUnits] at h
  | case2 t =>
    rw [scanUnits.eq_def] at h
    simp only [if_true] at h
    cases h
    exact ⟨.of_cons _ (List.suffix_refl _), fun _ u hu => by cases hu⟩
  | case3 hq => simp [scanUnits.eq_def, hq] at h
  | case4 h₁ h₂ h₃ h₄ t hhex hq => simp [scanUnits.eq_def, hq, hhex] at h
  | case5 h₁ h₂ h₃ h₄ t p hhex hq ih =>
    rw [scanUnits.eq_def] at h
    simp only [if_neg hq, if_true, hhex] at h
    exact scanUnits_cons (p := [cp '\\', cp 'u', h₁, h₂, h₃, h₄]) (by simp) ih h
  | case6 t ht hq =>
    rw [scanUnits.eq_def] at h
    simp only [if_neg hq, if_true] at h
    cases h
  | case7 e t he hp hq => simp [scanUnits.eq_def, hq, he, hp] at h
  | case8 e t he p hp hq ih =>
    rw [scanUnits.eq_def] at h
    simp only [if_neg hq, if_true, if_neg he, hp] at h
    exact scanUnits_cons (p := [cp '\\', e]) (fun _ _ => simpleEscape?_clean hp) ih h
  | case9 c t h₁ h₂ h₃ => simp [scanUnits.eq_def, h₁, h₂, h₃] at h
  | case10 c t h₁ h₂ h₃ ih =>
    rw [scanUnits.eq_def] at h
    simp only [if_neg h₁, if_neg h₂, if_neg h₃] at h
    exact scanUnits_cons (p := [c]) (fun hs _ => hs c (by simp)) ih h

theorem joinPair_not_low (h l : CodePoint) (hh : isHigh h = true) (hl : isLow l = true) :
    isHigh (joinPair h l) = false ∧ isLow (joinPair h l) = false := by
  simp only [isHigh, isLow, decide_eq_true_eq] at hh hl
  constructor
  · rw [isHigh, decide_eq_false_iff_not]
    simp only [joinPair, Fin.ofNat]
    omega
  · rw [isLow, decide_eq_false_iff_not]
    simp only [joinPair, Fin.ofNat]
    omega

/-- The first code point of a joined text is a low surrogate only if the first unit is. -/
theorem head_joinSurrogates (u : LitUnit) (us : List LitUnit) :
    ∃ c t, joinSurrogates (u :: us) = c :: t ∧ (isLow c = true → c = u.point) := by
  cases us with
  | nil => exact ⟨u.point, [], rfl, fun _ => rfl⟩
  | cons v us =>
    rw [joinSurrogates]
    split_ifs with h
    · refine ⟨_, _, rfl, fun hlow => ?_⟩
      rw [(joinPair_not_low _ _ h.2.2.1 h.2.2.2).2] at hlow
      cases hlow
    · exact ⟨_, _, rfl, fun _ => rfl⟩

theorem isSurrogate_of_isHigh {c : CodePoint} (h : isHigh c = true) : isSurrogate c = true := by
  simp only [isHigh, isSurrogate, decide_eq_true_eq] at *
  omega

theorem isSurrogate_of_isLow {c : CodePoint} (h : isLow c = true) : isSurrogate c = true := by
  simp only [isLow, isSurrogate, decide_eq_true_eq] at *
  omega

theorem CleanUnits.escaped {us : List LitUnit} (h : CleanUnits us) {u : LitUnit} (hu : u ∈ us)
    (hs : isSurrogate u.point = true) : u.escaped = true := by
  cases hesc : u.escaped with
  | true => rfl
  | false =>
    rw [h u hu hesc] at hs
    cases hs

/-- Joining leaves no pair of surrogates. -/
theorem noPair_joinSurrogates {us : List LitUnit} (h : CleanUnits us) :
    NoPair (joinSurrogates us) := by
  induction us using joinSurrogates.induct with
  | case1 => exact .nil
  | case2 u => exact .singleton _
  | case3 u v us hpair ih =>
    have htail : NoPair (joinSurrogates us) :=
      ih fun w hw => h w (by simp [hw])
    rw [joinSurrogates, if_pos hpair]
    refine List.IsChain.cons htail fun d _ hd => ?_
    rw [(joinPair_not_low _ _ hpair.2.2.1 hpair.2.2.2).1] at hd
    cases hd.1
  | case4 u v us hpair ih =>
    have htail : NoPair (joinSurrogates (v :: us)) := ih fun w hw => h w (by simp [List.mem_cons.mp hw])
    rw [joinSurrogates, if_neg hpair]
    refine List.IsChain.cons htail fun d hd hud => ?_
    obtain ⟨c, t, hc, hlow⟩ := head_joinSurrogates v us
    rw [hc, List.head?_cons, Option.mem_some_iff] at hd
    subst hd
    have hv := hlow hud.2
    subst hv
    exact hpair ⟨h.escaped (by simp) (isSurrogate_of_isHigh hud.1),
      h.escaped (by simp) (isSurrogate_of_isLow hud.2), hud⟩

theorem scanString_spec {s t rest : Str} (h : scanString s = .ok (t, rest)) :
    Shorter rest s ∧ (Clean s → NoPair t) := by
  obtain ⟨⟨us, rest'⟩, hscan, heq⟩ := ok_map h
  cases heq
  obtain ⟨hshort, hclean⟩ := scanUnits_spec hscan
  exact ⟨hshort, fun hs => noPair_joinSurrogates (hclean hs)⟩

/-! ## Constants and numbers -/

theorem afterPrefix?_eq {p s rest : Str} (h : afterPrefix? p s = some rest) : s = p ++ rest := by
  induction p generalizing s with
  | nil => simpa [afterPrefix?] using h
  | cons c p ih =>
    cases s with
    | nil => cases h
    | cons d s =>
      rw [afterPrefix?] at h
      split_ifs at h with hcd
      rw [hcd, ih h, List.cons_append]

theorem literal?_spec {s rest : Str} {v : JVal} (h : literal? s = some (v, rest)) :
    Shorter rest s ∧ WellFormed v := by
  obtain ⟨⟨name, w⟩, hmem, hl⟩ := List.exists_of_findSome?_eq_some h
  obtain ⟨rest', hrest, heq⟩ := Option.map_eq_some_iff.mp hl
  cases heq
  have hs := afterPrefix?_eq hrest
  have hname : 0 < name.length ∧ WellFormed w := by
    simp only [literals, List.mem_cons, List.not_mem_nil, or_false, Prod.mk.injEq] at hmem
    rcases hmem with ⟨rfl, rfl⟩ | ⟨rfl, rfl⟩ | ⟨rfl, rfl⟩ | ⟨rfl, rfl⟩ | ⟨rfl, rfl⟩ | ⟨rfl, rfl⟩
    · exact ⟨by decide, .null⟩
    · exact ⟨by decide, .bool true⟩
    · exact ⟨by decide, .bool false⟩
    all_goals exact ⟨by decide, .float _⟩
  rw [hs]
  refine ⟨⟨List.suffix_append _ _, ?_⟩, hname.2⟩
  have hpos := hname.1
  simp only [List.length_append]
  omega

theorem scanInt_spec {s ip rest : Str} (h : scanInt s = some (ip, rest)) :
    s = ip ++ rest ∧ ip ≠ [] ∧ ∀ c ∈ ip, isDigit c = true := by
  cases s with
  | nil => cases h
  | cons c s =>
    rw [scanInt] at h
    split_ifs at h with h0 hc
    · cases h
      subst h0
      exact ⟨rfl, by simp, by simp⟩
    · cases h
      refine ⟨by simp, by simp, fun d hd => ?_⟩
      rcases List.mem_cons.mp hd with rfl | hd
      · exact hc
      · exact List.mem_takeWhile_imp hd

theorem scanFrac_suffix (s : Str) : (scanFrac s).2 <:+ s := by
  match s with
  | [] => exact List.suffix_refl _
  | [_] => exact List.suffix_refl _
  | p :: c :: s =>
    rw [scanFrac]
    split_ifs
    · exact (List.dropWhile_suffix _).trans
        ((List.suffix_cons c s).trans (List.suffix_cons p (c :: s)))
    · exact List.suffix_refl _

theorem scanSign_suffix (s : Str) : (scanSign s).2 <:+ s := by
  cases s with
  | nil => exact List.suffix_refl _
  | cons c s =>
    rw [scanSign]
    split_ifs
    · exact List.suffix_cons c s
    · exact List.suffix_cons c s
    · exact List.suffix_refl _

theorem scanExp_suffix (s : Str) : (scanExp s).2 <:+ s := by
  cases s with
  | nil => exact List.suffix_refl _
  | cons c s =>
    rw [scanExp]
    split
    · dsimp only
      split
      · exact List.suffix_refl _
      · exact (List.dropWhile_suffix _).trans ((scanSign_suffix s).trans (List.suffix_cons c s))
    · exact List.suffix_refl _

theorem natOfDigits_lt {ds : Str} (h : ∀ c ∈ ds, isDigit c = true) :
    natOfDigits ds < 10 ^ ds.length := by
  induction ds with
  | nil => simp [natOfDigits]
  | cons c ds ih =>
    have hc := h c (by simp)
    have htail := ih fun d hd => h d (by simp [hd])
    rw [isDigit, decide_eq_true_eq] at hc
    have hval : digitVal c ≤ 9 := by
      unfold digitVal
      omega
    rw [natOfDigits_cons, List.length_cons, pow_succ]
    nlinarith [Nat.mul_le_mul_right (10 ^ ds.length) hval]

theorem natText_length_le_iff {n k : ℕ} (hk : 0 < k) : (natText n).length ≤ k ↔ n < 10 ^ k := by
  unfold natText
  split_ifs with hn
  · subst hn
    exact iff_of_true hk (Nat.pow_pos (by norm_num))
  · rw [List.length_map, List.length_reverse]
    exact Nat.digits_length_le_iff (by norm_num) n

theorem scanNumber_spec {s rest : Str} {v : JVal} (h : scanNumber s = .ok (v, rest)) :
    Shorter rest s ∧ WellFormed v := by
  unfold scanNumber at h
  dsimp only at h
  have hbody : (if decide (s.head? = some (cp '-')) = true then s.tail else s) <:+ s := by
    split
    · exact List.tail_suffix s
    · exact List.suffix_refl s
  revert h hbody
  generalize (if decide (s.head? = some (cp '-')) = true then s.tail else s) = body
  intro h hbody
  split at h
  · cases h
  · next ip r₁ hint =>
    obtain ⟨rfl, hne, hds⟩ := scanInt_spec hint
    have hrest : (scanExp (scanFrac r₁).2).2 <:+ r₁ :=
      (scanExp_suffix _).trans (scanFrac_suffix _)
    have hshort : Shorter (scanExp (scanFrac r₁).2).2 s := by
      refine Shorter.trans_suffix ⟨hrest.trans (List.suffix_append ip r₁), ?_⟩ hbody
      have hlen := hrest.length_le
      have hpos : 0 < ip.length := List.length_pos_iff.mpr hne
      rw [List.length_append]
      omega
    split at h
    · split at h
      · next hdigits =>
        cases h
        refine ⟨hshort, .int ?_⟩
        have habs : (if decide (s.head? = some (cp '-')) = true then -(natOfDigits ip : ℤ)
            else natOfDigits ip).natAbs = natOfDigits ip := by
          split <;> simp
        rw [habs]
        have hlen := (natText_length_le_iff (List.length_pos_iff.mpr hne)).mpr (natOfDigits_lt hds)
        exact hlen.trans hdigits
      · cases h
    · cases h
      exact ⟨hshort, .float _⟩

theorem scanAtom_spec {s rest : Str} {v : JVal} (h : scanAtom s = .ok (v, rest)) :
    Shorter rest s ∧ WellFormed v := by
  unfold scanAtom at h
  split at h
  · next hl =>
    cases h
    exact literal?_spec hl
  · exact scanNumber_spec h

/-! ## Values -/

theorem scanAfter_shorter {stop : CodePoint} {s : Str} {a : After} (h : scanAfter stop s = .ok a) :
    ∀ rest, a = .close rest ∨ a = .comma rest → Shorter rest s := by
  unfold scanAfter at h
  have hskip := skipWs_suffix s
  split at h
  · cases h
  · next c t hct =>
    rw [hct] at hskip
    have ht : Shorter t s := (Shorter.of_cons c (List.suffix_refl t)).trans_suffix hskip
    split_ifs at h
    · cases h
      rintro rest (h | h) <;> cases h
      exact ht
    · cases h
      rintro rest (h | h) <;> cases h
      exact .suffix_trans (skipWs_suffix t) ht

theorem scanKey_spec {s rest key : Str} (h : scanKey s = .ok (key, rest)) :
    Shorter rest s ∧ (Clean s → NoPair key) := by
  cases s with
  | nil => cases h
  | cons c s =>
    rw [scanKey] at h
    split_ifs at h
    split at h
    · cases h
    · next key' t hstr =>
      obtain ⟨hshort, hkey⟩ := scanString_spec hstr
      have hskip := skipWs_suffix t
      split at h
      · cases h
      · next d t' ht =>
        rw [ht] at hskip
        split_ifs at h
        cases h
        have h₁ : Shorter (skipWs t') (c :: s) :=
          .of_cons c (((skipWs_suffix t').trans (List.suffix_cons d t')).trans
            (hskip.trans hshort.1))
        exact ⟨h₁, fun hs => hkey (hs.suffix (List.suffix_cons c s))⟩

theorem mem_dictSet {key : Str} {value : JVal} {kvs : List (Str × JVal)} {kv : Str × JVal}
    (h : kv ∈ dictSet key value kvs) : kv = (key, value) ∨ kv ∈ kvs := by
  induction kvs with
  | nil => exact .inl (by simpa [dictSet] using h)
  | cons x kvs ih =>
    rw [dictSet] at h
    split_ifs at h
    · rcases List.mem_cons.mp h with h | h
      · exact .inl h
      · exact .inr (by simp [h])
    · rcases List.mem_cons.mp h with h | h
      · exact .inr (by simp [h])
      · exact (ih h).imp id fun h => by simp [h]

theorem nodup_dictSet {key : Str} {value : JVal} {kvs : List (Str × JVal)}
    (h : (kvs.map Prod.fst).Nodup) : ((dictSet key value kvs).map Prod.fst).Nodup := by
  induction kvs with
  | nil => simp [dictSet]
  | cons x kvs ih =>
    rw [List.map_cons, List.nodup_cons] at h
    rw [dictSet]
    split_ifs with hx
    · rw [List.map_cons, List.nodup_cons, ← hx]
      exact h
    · rw [List.map_cons, List.nodup_cons]
      refine ⟨fun hmem => ?_, ih h.2⟩
      obtain ⟨kv, hkv, hfst⟩ := List.mem_map.mp hmem
      rcases mem_dictSet hkv with rfl | hkv
      · exact hx hfst.symm
      · exact h.1 (hfst ▸ List.mem_map_of_mem hkv)

/-- A `dict` has distinct keys, and its items are assignments that were made. -/
theorem dictOf_spec (pairs : List (Str × JVal)) :
    ((dictOf pairs).map Prod.fst).Nodup ∧ ∀ kv ∈ dictOf pairs, kv ∈ pairs := by
  induction pairs using List.reverseRecOn with
  | nil => simp [dictOf]
  | append_singleton pairs kv ih =>
    have hfold : dictOf (pairs ++ [kv]) = dictSet kv.1 kv.2 (dictOf pairs) := by
      simp [dictOf, List.foldl_append]
    rw [hfold]
    refine ⟨nodup_dictSet ih.1, fun x hx => ?_⟩
    rcases mem_dictSet hx with rfl | hx
    · simp
    · exact List.mem_append_left _ (ih.2 x hx)

/-- One level of the scanner, for the induction on the fuel. -/
structure ScanSpec (fuel : ℕ) : Prop where
  value : ∀ {s v rest}, scanValue fuel s = .ok (v, rest) →
    Shorter rest s ∧ (Clean s → WellFormed v)
  elements : ∀ {s xs rest}, scanElements fuel s = .ok (xs, rest) →
    Shorter rest s ∧ (Clean s → ∀ x ∈ xs, WellFormed x)
  members : ∀ {s kvs rest}, scanMembers fuel s = .ok (kvs, rest) →
    Shorter rest s ∧ (Clean s → ∀ kv ∈ kvs, NoPair kv.1 ∧ WellFormed kv.2)

theorem scanSpec (fuel : ℕ) : ScanSpec fuel := by
  induction fuel with
  | zero => exact ⟨by simp [scanValue], by simp [scanElements], by simp [scanMembers]⟩
  | succ fuel ih =>
    refine ⟨?_, ?_, ?_⟩
    · intro s v rest h
      cases s with
      | nil => cases h
      | cons c s =>
        have hs := List.suffix_cons c s
        have hskip := skipWs_suffix s
        rw [scanValue] at h
        split_ifs at h
        · obtain ⟨⟨t, rest'⟩, hstr, heq⟩ := ok_map h
          cases heq
          obtain ⟨hshort, hpair⟩ := scanString_spec hstr
          exact ⟨hshort.trans_suffix hs, fun hclean => .str (hpair (hclean.suffix hs))⟩
        · split at h
          · cases h
          · next d t hdt =>
            rw [hdt] at hskip
            split_ifs at h
            · cases h
              exact ⟨.of_cons c ((List.suffix_cons d _).trans hskip),
                fun _ => .obj (by simp) (by simp) (by simp)⟩
            · obtain ⟨⟨kvs, rest'⟩, hmem, heq⟩ := ok_map h
              cases heq
              obtain ⟨hshort, hwf⟩ := ih.members hmem
              refine ⟨hshort.trans_suffix (hskip.trans hs), fun hclean => ?_⟩
              have hall := hwf (hclean.suffix (hskip.trans hs))
              obtain ⟨hnodup, hsub⟩ := dictOf_spec kvs
              exact .obj hnodup (fun kv hkv => (hall kv (hsub kv hkv)).1)
                fun kv hkv => (hall kv (hsub kv hkv)).2
        · split at h
          · cases h
          · next d t hdt =>
            rw [hdt] at hskip
            split_ifs at h
            · cases h
              exact ⟨.of_cons c ((List.suffix_cons d _).trans hskip), fun _ => .arr (by simp)⟩
            · obtain ⟨⟨xs, rest'⟩, helem, heq⟩ := ok_map h
              cases heq
              obtain ⟨hshort, hwf⟩ := ih.elements helem
              exact ⟨hshort.trans_suffix (hskip.trans hs),
                fun hclean => .arr (hwf (hclean.suffix (hskip.trans hs)))⟩
        · obtain ⟨hshort, hwf⟩ := scanAtom_spec h
          exact ⟨hshort, fun _ => hwf⟩
    · intro s xs rest h
      rw [scanElements] at h
      split at h
      · cases h
      · next v r₁ hv =>
        obtain ⟨hshort₁, hwf₁⟩ := ih.value hv
        split at h
        · cases h
        · next r₂ hafter =>
          cases h
          refine ⟨(scanAfter_shorter hafter _ (.inl rfl)).trans_suffix hshort₁.1, fun hs => ?_⟩
          simpa using hwf₁ hs
        · next r₂ hafter =>
          have hshort₂ := (scanAfter_shorter hafter _ (.inr rfl)).trans_suffix hshort₁.1
          obtain ⟨⟨ys, r₃⟩, hys, heq⟩ := ok_map h
          cases heq
          obtain ⟨hshort₃, hwf₃⟩ := ih.elements hys
          refine ⟨hshort₃.trans_suffix hshort₂.1, fun hs x hx => ?_⟩
          rcases List.mem_cons.mp hx with rfl | hx
          · exact hwf₁ hs
          · exact hwf₃ (hs.suffix hshort₂.1) x hx
    · intro s kvs rest h
      rw [scanMembers] at h
      split at h
      · cases h
      · next key r₀ hkey =>
        obtain ⟨hshort₀, hpair⟩ := scanKey_spec hkey
        split at h
        · cases h
        · next v r₁ hv =>
          obtain ⟨hshort₁', hwf₁⟩ := ih.value hv
          have hshort₁ := hshort₁'.trans_suffix hshort₀.1
          split at h
          · cases h
          · next r₂ hafter =>
            cases h
            refine ⟨(scanAfter_shorter hafter _ (.inl rfl)).trans_suffix hshort₁.1, fun hs => ?_⟩
            simpa using ⟨hpair hs, hwf₁ (hs.suffix hshort₀.1)⟩
          · next r₂ hafter =>
            have hshort₂ := (scanAfter_shorter hafter _ (.inr rfl)).trans_suffix hshort₁.1
            obtain ⟨⟨ys, r₃⟩, hys, heq⟩ := ok_map h
            cases heq
            obtain ⟨hshort₃, hwf₃⟩ := ih.members hys
            refine ⟨hshort₃.trans_suffix hshort₂.1, fun hs x hx => ?_⟩
            rcases List.mem_cons.mp hx with rfl | hx
            · exact ⟨hpair hs, hwf₁ (hs.suffix hshort₀.1)⟩
            · exact hwf₃ (hs.suffix hshort₂.1) x hx

/-! ## Fuel -/

/-- More fuel than the text needs changes nothing. -/
structure FuelSpec (fuel : ℕ) : Prop where
  value : ∀ {s n}, 2 * s.length + 1 ≤ fuel → fuel ≤ n →
    scanValue fuel s = scanValue n s
  elements : ∀ {s n}, 2 * s.length + 2 ≤ fuel → fuel ≤ n →
    scanElements fuel s = scanElements n s
  members : ∀ {s n}, 2 * s.length + 2 ≤ fuel → fuel ≤ n →
    scanMembers fuel s = scanMembers n s

theorem fuelSpec (fuel : ℕ) : FuelSpec fuel := by
  induction fuel with
  | zero => exact ⟨by omega, by omega, by omega⟩
  | succ fuel ih =>
    refine ⟨?_, ?_, ?_⟩
    · intro s fuel' hs hle
      obtain ⟨fuel', rfl⟩ : ∃ f, fuel' = f + 1 := ⟨fuel' - 1, by omega⟩
      cases s with
      | nil => rfl
      | cons c s =>
        have hlen := (skipWs_suffix s).length_le
        rw [List.length_cons] at hs
        rw [scanValue, scanValue]
        cases hskip : skipWs s with
        | nil => rfl
        | cons d t =>
          rw [hskip] at hlen
          have hmembers := ih.members (s := d :: t) (n := fuel') (by omega) (by omega)
          have helements := ih.elements (s := d :: t) (n := fuel') (by omega) (by omega)
          simp only [hmembers, helements]
    · intro s fuel' hs hle
      obtain ⟨fuel', rfl⟩ : ∃ f, fuel' = f + 1 := ⟨fuel' - 1, by omega⟩
      rw [scanElements, scanElements, ← ih.value (s := s) (n := fuel') (by omega) (by omega)]
      cases hv : scanValue fuel s with
      | error e => rfl
      | ok r =>
        have h₁ := ((scanSpec fuel).value hv).1.2
        cases hafter : scanAfter (cp ']') r.2 with
        | error e => simp only [hafter]
        | ok a =>
          cases a with
          | close t => simp only [hafter]
          | comma t =>
            have h₂ := (scanAfter_shorter hafter t (.inr rfl)).2
            simp only [hafter, ih.elements (s := t) (n := fuel') (by omega) (by omega)]
    · intro s fuel' hs hle
      obtain ⟨fuel', rfl⟩ : ∃ f, fuel' = f + 1 := ⟨fuel' - 1, by omega⟩
      rw [scanMembers, scanMembers]
      cases hkey : scanKey s with
      | error e => rfl
      | ok k =>
        have h₀ := (scanKey_spec hkey).1.2
        have heq := ih.value (s := k.2) (n := fuel') (by omega) (by omega)
        simp only [← heq]
        cases hv : scanValue fuel k.2 with
        | error e => rfl
        | ok r =>
          have h₁ := ((scanSpec fuel).value hv).1.2
          cases hafter : scanAfter (cp '}') r.2 with
          | error e => simp only [hafter]
          | ok a =>
            cases a with
            | close t => simp only [hafter]
            | comma t =>
              have h₂ := (scanAfter_shorter hafter t (.inr rfl)).2
              simp only [hafter, ih.members (s := t) (n := fuel') (by omega) (by omega)]

/-- The fuel of `loads` is enough: with more, the scanner does the same. -/
theorem scanValue_fuel {s : Str} {fuel : ℕ} (h : scanFuel s ≤ fuel) :
    scanValue (scanFuel s) (skipWs s) = scanValue fuel (skipWs s) := by
  have hlen := (skipWs_suffix s).length_le
  exact (fuelSpec _).value (by unfold scanFuel; omega) h

/-! ## What comes out -/

/-- A value read from text without surrogates is well formed. -/
theorem wellFormed_loads {s : Str} {v : JVal} (hs : Clean s) (h : loads s = .ok v) :
    WellFormed v := by
  unfold loads at h
  split_ifs at h
  split at h
  · cases h
  · next w rest hscan =>
    split_ifs at h
    cases h
    exact ((scanSpec _).value hscan).2 (hs.suffix (skipWs_suffix s))

end JVal

end SecurityAudit
