import SecurityAudit.Json.Loads

/-!
# Reading what was printed

`loads (printed pad v)` is `v` for every well-formed `v` (`loads_printed`), and `loads (dumps v)`
is `v` with its keys in order (`loads_dumps`). So the printed text determines the value up to
key order (`dumps_inj`), which is what a hash over the text needs. Each scanner is met with the
text its printer produced followed by anything the printer could have put next: `Stop` says that
what follows a number does not continue it.
-/

namespace SecurityAudit

namespace JVal

/-! ## Strings -/

/-- The units the printed form of one code point is scanned as. -/
def unitsOf (c : CodePoint) : List LitUnit :=
  if c = cp '"' ∨ c = cp '\\' ∨ c = cp '\n' ∨ c = cp '\r' ∨ c = cp '\t' ∨ c.val = 0x0C ∨
      c.val = 0x08 ∨ (0x20 ≤ c.val ∧ c.val ≤ 0x7E) then [⟨c, false⟩]
  else if c.val < 0x10000 then [⟨c, true⟩]
  else [⟨Fin.ofNat _ (0xD800 + (c.val - 0x10000) / 0x400), true⟩,
    ⟨Fin.ofNat _ (0xDC00 + (c.val - 0x10000) % 0x400), true⟩]

theorem hex4?_hexDigit {n : ℕ} (hn : n < 0x10000) :
    hex4? (hexDigit (n / 4096)) (hexDigit (n / 256)) (hexDigit (n / 16)) (hexDigit n) =
      some (Fin.ofNat _ n) := by
  simp only [hex4?, hexVal?_hexDigit]
  congr 2
  omega

theorem scanUnits_unicodeEscape {n : ℕ} (hn : n < 0x10000) (rest : Str) :
    scanUnits (unicodeEscape n ++ rest) =
      (scanUnits rest).map fun r => (⟨Fin.ofNat _ n, true⟩ :: r.1, r.2) := by
  have hq : cp '\\' ≠ cp '"' := by decide
  simp only [unicodeEscape, List.cons_append, List.nil_append]
  rw [scanUnits.eq_def]
  simp only [if_neg hq, if_true, hex4?_hexDigit hn]

theorem scanUnits_simpleEscape {e p : CodePoint} (he : e ≠ cp 'u') (hp : simpleEscape? e = some p)
    (rest : Str) :
    scanUnits (cp '\\' :: e :: rest) =
      (scanUnits rest).map fun r => (⟨p, false⟩ :: r.1, r.2) := by
  have hq : cp '\\' ≠ cp '"' := by decide
  rw [scanUnits.eq_def]
  simp only [if_neg hq, if_true, if_neg he, hp]

theorem scanUnits_plain {c : CodePoint} (h₁ : c ≠ cp '"') (h₂ : c ≠ cp '\\') (h₃ : 0x20 ≤ c.val)
    (rest : Str) :
    scanUnits (c :: rest) = (scanUnits rest).map fun r => (⟨c, false⟩ :: r.1, r.2) := by
  have h₄ : ¬c.val < 0x20 := by omega
  rw [scanUnits.eq_def]
  simp only [if_neg h₁, if_neg h₂, if_neg h₄]

theorem fin_ofNat_val (c : CodePoint) : Fin.ofNat 0x110000 c.val = c := by
  ext
  simp [Fin.ofNat, Nat.mod_eq_of_lt c.isLt]

/-- One printed code point is scanned as its units. -/
theorem scanUnits_escapeChar (c : CodePoint) (rest : Str) :
    scanUnits (escapeChar c ++ rest) = (scanUnits rest).map fun r => (unitsOf c ++ r.1, r.2) := by
  unfold escapeChar
  split_ifs with h₁ h₂ h₃ h₄ h₅ h₆ h₇ h₈ h₉
  · subst h₁; exact scanUnits_simpleEscape (by decide) (by decide) rest
  · subst h₂; exact scanUnits_simpleEscape (by decide) (by decide) rest
  · subst h₃; exact scanUnits_simpleEscape (by decide) (by decide) rest
  · subst h₄; exact scanUnits_simpleEscape (by decide) (by decide) rest
  · subst h₅; exact scanUnits_simpleEscape (by decide) (by decide) rest
  · have hu : unitsOf c = [⟨c, false⟩] := by simp [unitsOf, h₆]
    have hc : c = ⟨0x0C, by omega⟩ := Fin.ext h₆
    rw [hu, hc]
    exact scanUnits_simpleEscape (by decide) rfl rest
  · have hu : unitsOf c = [⟨c, false⟩] := by simp [unitsOf, h₇]
    have hc : c = ⟨0x08, by omega⟩ := Fin.ext h₇
    rw [hu, hc]
    exact scanUnits_simpleEscape (by decide) rfl rest
  · have hu : unitsOf c = [⟨c, false⟩] := by simp [unitsOf, h₈]
    rw [hu]
    exact scanUnits_plain h₁ h₂ h₈.1 rest
  · have hu : unitsOf c = [⟨c, true⟩] := by simp [unitsOf, h₁, h₂, h₃, h₄, h₅, h₆, h₇, h₈, h₉]
    rw [hu, scanUnits_unicodeEscape h₉, fin_ofNat_val]
    rfl
  · have hu : unitsOf c = [⟨Fin.ofNat _ (0xD800 + (c.val - 0x10000) / 0x400), true⟩,
        ⟨Fin.ofNat _ (0xDC00 + (c.val - 0x10000) % 0x400), true⟩] := by
      simp [unitsOf, h₁, h₂, h₃, h₄, h₅, h₆, h₇, h₈, h₉]
    have hc : c.val < 0x110000 := c.isLt
    rw [hu, List.append_assoc, scanUnits_unicodeEscape (by omega),
      scanUnits_unicodeEscape (by omega)]
    cases scanUnits rest <;> rfl

theorem scanUnits_body (s rest : Str) :
    scanUnits (s.flatMap escapeChar ++ cp '"' :: rest) = .ok (s.flatMap unitsOf, rest) := by
  induction s with
  | nil =>
    rw [List.flatMap_nil, List.nil_append, scanUnits.eq_def]
    simp only [if_true, List.flatMap_nil]
  | cons c s ih =>
    rw [List.flatMap_cons, List.append_assoc, scanUnits_escapeChar, ih]
    rfl

theorem unitsOf_cases (c : CodePoint) :
    unitsOf c = [⟨c, false⟩] ∨ unitsOf c = [⟨c, true⟩] ∨
      ∃ h l, unitsOf c = [⟨h, true⟩, ⟨l, true⟩] ∧ isHigh h = true ∧ isLow l = true ∧
        joinPair h l = c := by
  unfold unitsOf
  split_ifs with h₁ h₂
  · exact .inl rfl
  · exact .inr (.inl rfl)
  · have hc : c.val < 0x110000 := c.isLt
    refine .inr (.inr ⟨_, _, rfl, ?_, ?_, Fin.ext ?_⟩)
    · simp only [isHigh, Fin.ofNat, decide_eq_true_eq]
      omega
    · simp only [isLow, Fin.ofNat, decide_eq_true_eq]
      omega
    · simp only [joinPair, Fin.ofNat]
      omega

/-- A unit that starts no pair is its own code point. -/
theorem joinSurrogates_cons {u : LitUnit} {us : List LitUnit}
    (h : ∀ v ∈ us.head?, ¬(u.escaped = true ∧ v.escaped = true ∧ isHigh u.point = true ∧
      isLow v.point = true)) :
    joinSurrogates (u :: us) = u.point :: joinSurrogates us := by
  cases us with
  | nil => rfl
  | cons v us => rw [joinSurrogates, if_neg (h v rfl)]

/-- The first unit of a printed text is an escaped low surrogate only if the text starts with
that surrogate. -/
theorem head_units_low {s : Str} {v : LitUnit} (hv : v ∈ (s.flatMap unitsOf).head?)
    (hesc : v.escaped = true) (hlow : isLow v.point = true) : s.head? = some v.point := by
  cases s with
  | nil => cases hv
  | cons d s =>
    rw [List.flatMap_cons] at hv
    rcases unitsOf_cases d with hd | hd | ⟨h, l, hd, hhigh, -, -⟩ <;>
      simp only [hd, List.cons_append, List.head?_cons, Option.mem_some_iff] at hv <;> subst hv
    · cases hesc
    · rfl
    · simp only [isHigh, isLow, decide_eq_true_eq] at hhigh hlow
      omega

theorem joinSurrogates_units {s : Str} (hs : NoPair s) :
    joinSurrogates (s.flatMap unitsOf) = s := by
  induction s with
  | nil => rfl
  | cons c s ih =>
    have htail : NoPair s := List.IsChain.tail hs
    rw [List.flatMap_cons]
    rcases unitsOf_cases c with hc | hc | ⟨h, l, hc, hhigh, hlow, hjoin⟩
    · rw [hc, List.singleton_append, joinSurrogates_cons (by simp), ih htail]
    · rw [hc, List.singleton_append, joinSurrogates_cons, ih htail]
      rintro v hv ⟨-, hesc, hhigh, hlow⟩
      have hhead := head_units_low hv hesc hlow
      cases s with
      | nil => cases hhead
      | cons d s =>
        obtain rfl : d = v.point := by simpa using hhead
        exact (List.isChain_cons_cons.mp hs).1 ⟨hhigh, hlow⟩
    · rw [hc, List.cons_append, List.cons_append, List.nil_append, joinSurrogates,
        if_pos ⟨rfl, rfl, hhigh, hlow⟩, hjoin, ih htail]

/-- A printed string is scanned as itself. -/
theorem scanString_quote {s : Str} (hs : NoPair s) (rest : Str) :
    scanString (s.flatMap escapeChar ++ cp '"' :: rest) = .ok (s, rest) := by
  rw [scanString, scanUnits_body]
  simp only [Except.map, joinSurrogates_units hs]

/-! ## Numbers -/

/-- What may follow a printed number: nothing that continues it. -/
def Stop (s : Str) : Prop :=
  ∀ c ∈ s.head?, isDigit c = false ∧ c ≠ cp '.' ∧ c ≠ cp 'e' ∧ c ≠ cp 'E'

theorem Stop.nil : Stop [] := by simp [Stop]

theorem Stop.cons {c : CodePoint} {s : Str}
    (h : isDigit c = false ∧ c ≠ cp '.' ∧ c ≠ cp 'e' ∧ c ≠ cp 'E') : Stop (c :: s) := by
  simpa [Stop] using h

theorem takeWhile_digits {ds rest : Str} (hds : ∀ c ∈ ds, isDigit c = true)
    (hrest : ∀ c ∈ rest.head?, isDigit c = false) : (ds ++ rest).takeWhile isDigit = ds := by
  rw [List.takeWhile_append_of_pos hds]
  cases rest with
  | nil => simp
  | cons c rest => simp [hrest c rfl]

theorem dropWhile_digits {ds rest : Str} (hds : ∀ c ∈ ds, isDigit c = true)
    (hrest : ∀ c ∈ rest.head?, isDigit c = false) : (ds ++ rest).dropWhile isDigit = rest := by
  rw [List.dropWhile_append_of_pos hds]
  cases rest with
  | nil => simp
  | cons c rest => simp [hrest c rfl]

theorem scanInt_append {ip rest : Str} (hne : ip ≠ []) (hds : ∀ c ∈ ip, isDigit c = true)
    (hzero : ip.head? = some (digit 0) → ip = [digit 0])
    (hrest : ∀ c ∈ rest.head?, isDigit c = false) : scanInt (ip ++ rest) = some (ip, rest) := by
  cases ip with
  | nil => exact absurd rfl hne
  | cons c s =>
    rw [List.cons_append, scanInt]
    by_cases hc : c = digit 0
    · subst hc
      obtain rfl : s = [] := by simpa using hzero rfl
      simp
    · have hs : ∀ d ∈ s, isDigit d = true := fun d hd => hds d (by simp [hd])
      rw [if_neg hc, if_pos (hds c (by simp)), takeWhile_digits hs hrest, dropWhile_digits hs hrest]

theorem scanFrac_append {fp rest : Str} (hne : fp ≠ []) (hds : ∀ c ∈ fp, isDigit c = true)
    (hrest : ∀ c ∈ rest.head?, isDigit c = false) :
    scanFrac (cp '.' :: (fp ++ rest)) = (fp, rest) := by
  cases fp with
  | nil => exact absurd rfl hne
  | cons c s =>
    have hs : ∀ d ∈ s, isDigit d = true := fun d hd => hds d (by simp [hd])
    rw [List.cons_append, scanFrac, if_pos ⟨rfl, hds c (by simp)⟩, takeWhile_digits hs hrest,
      dropWhile_digits hs hrest]

theorem scanFrac_none {s : Str} (h : ∀ c ∈ s.head?, c ≠ cp '.') : scanFrac s = ([], s) := by
  match s with
  | [] => rfl
  | [_] => rfl
  | p :: c :: s => rw [scanFrac, if_neg (fun hp => h p rfl hp.1)]

theorem scanExp_none {s : Str} (h : ∀ c ∈ s.head?, c ≠ cp 'e' ∧ c ≠ cp 'E') :
    scanExp s = (none, s) := by
  cases s with
  | nil => rfl
  | cons c s =>
    have hc := h c rfl
    rw [scanExp, if_neg (by simp [hc.1, hc.2])]

theorem scanExp_append (k : ℤ) {rest : Str} (hrest : ∀ c ∈ rest.head?, isDigit c = false) :
    scanExp (cp 'e' :: (DecLit.exponentText k ++ rest)) = (some k, rest) := by
  obtain ⟨ds, hds, hdigits, hval, htext⟩ : ∃ ds : Str, ds ≠ [] ∧ (∀ c ∈ ds, isDigit c = true) ∧
      natOfDigits ds = k.natAbs ∧
      DecLit.exponentText k = (if k < 0 then cp '-' else cp '+') :: ds := by
    refine ⟨_, ?_, ?_, ?_, rfl⟩
    · split
      · simp
      · exact natText_ne_nil _
    · intro c hc
      split at hc
      · rcases List.mem_cons.mp hc with rfl | hc
        · exact isDigit_digit 0
        · exact isDigit_of_mem_natText hc
      · exact isDigit_of_mem_natText hc
    · split
      · rw [natOfDigits_cons]
        simp
      · simp
  have hsign : scanSign (DecLit.exponentText k ++ rest) = (decide (k < 0), ds ++ rest) := by
    rw [htext, List.cons_append]
    by_cases hk : k < 0
    · simp [scanSign, hk]
    · have hne : cp '+' ≠ cp '-' := by decide
      simp [scanSign, hk, hne]
  rw [scanExp, if_pos (.inl rfl)]
  simp only [hsign, takeWhile_digits hdigits hrest, dropWhile_digits hdigits hrest, if_neg hds,
    hval, decide_eq_true_eq]
  congr 2
  split_ifs <;> omega

/-- A minus sign. -/
def minus (neg : Bool) : Str := if neg then [cp '-'] else []

theorem head_of_digits {ip : Str} (hne : ip ≠ []) (hds : ∀ c ∈ ip, isDigit c = true) :
    ∃ c s, ip = c :: s ∧ isDigit c = true := by
  obtain ⟨c, s, rfl⟩ := List.exists_cons_of_ne_nil hne
  exact ⟨c, s, rfl, hds c (by simp)⟩

/-- The sign is cut off before the digits are read. -/
theorem scanNumber_minus (neg : Bool) {ip fp r₁ r₂ r₃ : Str} {ex : Option ℤ} {c : CodePoint}
    {s : Str} (hip : ip ++ r₁ = c :: s) (hc : isDigit c = true)
    (hint : scanInt (ip ++ r₁) = some (ip, r₁)) (hfrac : scanFrac r₁ = (fp, r₂))
    (hexp : scanExp r₂ = (ex, r₃)) :
    scanNumber (minus neg ++ (ip ++ r₁)) =
      if fp = [] ∧ ex = none then
        if ip.length ≤ maxStrDigits then
          .ok (.int (if neg then -natOfDigits ip else natOfDigits ip), r₃)
        else .error .intTooLong
      else .ok (.float (floatOf neg ⟨ip, fp, ex⟩), r₃) := by
  have hdash : c ≠ cp '-' := by
    rintro rfl
    revert hc
    decide
  have hneg : decide ((minus neg ++ (ip ++ r₁)).head? = some (cp '-')) = neg := by
    rw [hip]
    cases neg <;> simp [minus, hdash]
  have hbody : (if neg then (minus neg ++ (ip ++ r₁)).tail else minus neg ++ (ip ++ r₁)) =
      ip ++ r₁ := by
    cases neg <;> simp [minus]
  unfold scanNumber
  simp only [hneg, hbody, hint, hfrac, hexp]

theorem Stop.not_digit {s : Str} (h : Stop s) : ∀ c ∈ s.head?, isDigit c = false :=
  fun c hc => (h c hc).1

theorem intText_eq (n : ℤ) : intText n = minus (decide (n < 0)) ++ natText n.natAbs := by
  cases n with
  | ofNat n => simp [intText, minus]
  | negSucc n => simp [intText, minus]

theorem scanNumber_intText {n : ℤ} (hn : (natText n.natAbs).length ≤ maxStrDigits) {rest : Str}
    (hrest : Stop rest) : scanNumber (intText n ++ rest) = .ok (.int n, rest) := by
  have hds : ∀ c ∈ natText n.natAbs, isDigit c = true := fun _ => isDigit_of_mem_natText
  obtain ⟨c, s, hcs, hc⟩ := head_of_digits (natText_ne_nil n.natAbs) hds
  have hzero : (natText n.natAbs).head? = some (digit 0) → natText n.natAbs = [digit 0] := by
    intro h
    by_cases h0 : n.natAbs = 0
    · rw [h0, natText_zero]
    · obtain ⟨d, t, hd, -, hne⟩ := natText_head_pos h0
      rw [hd] at h
      exact absurd (by simpa using h) hne
  rw [intText_eq, List.append_assoc,
    scanNumber_minus _ (show natText n.natAbs ++ rest = c :: (s ++ rest) by simp [hcs]) hc
      (scanInt_append (natText_ne_nil _) hds hzero hrest.not_digit)
      (scanFrac_none fun c hc => (hrest c hc).2.1)
      (scanExp_none fun c hc => (hrest c hc).2.2),
    if_pos ⟨rfl, rfl⟩, if_pos hn, natOfDigits_natText]
  congr 3
  simp only [decide_eq_true_eq]
  split_ifs <;> omega

/-- The text of a float literal splits at its point and its exponent. -/
theorem scanNumber_decLit {l : DecLit} (hl : l.WellFormed) (neg : Bool) {rest : Str}
    (hrest : Stop rest) :
    scanNumber (minus neg ++ (l.text ++ rest)) = .ok (.float (floatOf neg l), rest) := by
  obtain ⟨ip, fp, ex⟩ := l
  obtain ⟨hne, hds, hzero, hfp, hfrac⟩ := hl
  dsimp only at hne hds hzero hfp hfrac
  -- what follows the fraction, and what follows the integer part
  obtain ⟨tail, htail⟩ : ∃ t, t = DecLit.exponentPart ex ++ rest := ⟨_, rfl⟩
  have hexp : scanExp tail = (ex, rest) := by
    cases ex with
    | none => rw [htail]; exact scanExp_none fun c hc => (hrest c hc).2.2
    | some k => rw [htail]; exact scanExp_append k hrest.not_digit
  have htail_head : ∀ c ∈ tail.head?, isDigit c = false ∧ c ≠ cp '.' := by
    cases ex with
    | none => rw [htail]; exact fun c hc => ⟨(hrest c hc).1, (hrest c hc).2.1⟩
    | some k =>
      rw [htail]
      intro c hc
      obtain rfl : c = cp 'e' := by simpa [DecLit.exponentPart] using hc.symm
      exact ⟨by decide, by decide⟩
  have hscan : ∃ r₁, (DecLit.text ⟨ip, fp, ex⟩) ++ rest = ip ++ r₁ ∧
      (∀ c ∈ r₁.head?, isDigit c = false) ∧ scanFrac r₁ = (fp, tail) := by
    by_cases hf : fp = []
    · subst hf
      refine ⟨tail, ?_, fun c hc => (htail_head c hc).1, scanFrac_none fun c hc => (htail_head c hc).2⟩
      rw [htail, DecLit.text]
      simp only [if_true, List.append_nil, List.append_assoc]
    · refine ⟨cp '.' :: (fp ++ tail), ?_, ?_, scanFrac_append hf hfp fun c hc => (htail_head c hc).1⟩
      · rw [htail, DecLit.text]
        simp only [if_neg hf, List.append_assoc, List.cons_append]
      · intro c hc
        obtain rfl : c = cp '.' := by simpa using hc.symm
        decide
  obtain ⟨r₁, htext, hr₁, hscanFrac⟩ := hscan
  obtain ⟨c, s, hcs, hc⟩ := head_of_digits hne hds
  rw [htext, scanNumber_minus (s := s ++ r₁) neg (by simp [hcs]) hc
    (scanInt_append hne hds hzero hr₁) hscanFrac hexp, if_neg]
  rintro ⟨rfl, rfl⟩
  simp at hfrac

/-! ## Constants -/

theorem literal?_digit {c : CodePoint} (hc : isDigit c = true) (neg : Bool) (s : Str) :
    literal? (minus neg ++ c :: s) = none := by
  have hne : ∀ d : CodePoint, isDigit d = false → d ≠ c := by
    rintro d hd rfl
    rw [hc] at hd
    cases hd
  have hn := hne (cp 'n') (by decide)
  have ht := hne (cp 't') (by decide)
  have hf := hne (cp 'f') (by decide)
  have hN := hne (cp 'N') (by decide)
  have hI := hne (cp 'I') (by decide)
  have hm := hne (cp '-') (by decide)
  have hdash : cp 'n' ≠ cp '-' ∧ cp 't' ≠ cp '-' ∧ cp 'f' ≠ cp '-' ∧ cp 'N' ≠ cp '-' ∧
      cp 'I' ≠ cp '-' := by decide
  cases neg <;>
    simp [literal?, literals, SecurityAudit.str, afterPrefix?, minus, hn, ht, hf, hN, hI, hm, hdash]

theorem scanAtom_number {v : JVal} {c : CodePoint} (hc : isDigit c = true) (neg : Bool)
    {s rest : Str} (h : scanNumber (minus neg ++ c :: s) = .ok (v, rest)) :
    scanAtom (minus neg ++ c :: s) = .ok (v, rest) := by
  rw [scanAtom, literal?_digit hc]
  exact h

theorem scanAtom_literal {v : JVal} {s rest : Str} (h : literal? s = some (v, rest)) :
    scanAtom s = .ok (v, rest) := by
  rw [scanAtom, h]

theorem scanAtom_intText {n : ℤ} (hn : (natText n.natAbs).length ≤ maxStrDigits) {rest : Str}
    (hrest : Stop rest) : scanAtom (intText n ++ rest) = .ok (.int n, rest) := by
  obtain ⟨c, s, hcs, hc⟩ :=
    head_of_digits (natText_ne_nil n.natAbs) fun _ => isDigit_of_mem_natText
  have h := scanNumber_intText hn hrest
  rw [intText_eq, List.append_assoc, hcs, List.cons_append] at h ⊢
  exact scanAtom_number hc _ h

theorem scanAtom_floatText (x : PyFloat) {rest : Str} (hrest : Stop rest) :
    scanAtom (floatText x ++ rest) = .ok (.float x, rest) := by
  cases x with
  | nan => exact scanAtom_literal rfl
  | infinity neg => cases neg <;> exact scanAtom_literal rfl
  | finite neg mag =>
    have hwf := DecLit.wellFormed_reprLit mag
    have h := scanNumber_decLit hwf neg hrest
    rw [floatOf, DecLit.magnitude_reprLit] at h
    obtain ⟨c, s, hcs, hc⟩ := head_of_digits hwf.ip_ne_nil hwf.ip_digits
    obtain ⟨t, ht⟩ : ∃ t, (DecLit.reprLit mag).text ++ rest = c :: t := by
      simp only [DecLit.text, hcs, List.cons_append]
      exact ⟨_, rfl⟩
    rw [ht] at h
    rw [floatText, List.append_assoc, ht]
    exact scanAtom_number hc neg h

/-! ## Arrays and objects -/

theorem skipWs_cons {c : CodePoint} (h : isWs c = false) (s : Str) : skipWs (c :: s) = c :: s := by
  simp [skipWs, h]

/-- A character that starts a constant or a number, and nothing else. -/
def AtomHead (c : CodePoint) : Prop :=
  isWs c = false ∧ c ≠ cp ']' ∧ c ≠ cp '}' ∧ c ≠ cp '"' ∧ c ≠ cp '{' ∧ c ≠ cp '['

instance (c : CodePoint) : Decidable (AtomHead c) :=
  inferInstanceAs (Decidable (_ ∧ _ ∧ _ ∧ _ ∧ _ ∧ _))

theorem atomHead_of_isDigit {c : CodePoint} (hc : isDigit c = true) : AtomHead c := by
  have hne : ∀ d : CodePoint, isDigit d = false → c ≠ d := by
    rintro d hd rfl
    rw [hc] at hd
    cases hd
  refine ⟨?_, hne _ (by decide), hne _ (by decide), hne _ (by decide), hne _ (by decide),
    hne _ (by decide)⟩
  rw [isWs, decide_eq_false_iff_not]
  rintro (h | h | h | h)
  all_goals exact hne _ (by decide) h

theorem minus_head (neg : Bool) {ds : Str} (t : Str) (hne : ds ≠ [])
    (hds : ∀ c ∈ ds, isDigit c = true) :
    ∃ c s, minus neg ++ (ds ++ t) = c :: s ∧ AtomHead c := by
  obtain ⟨c, s, rfl, hc⟩ := head_of_digits hne hds
  cases neg
  · exact ⟨c, s ++ t, rfl, atomHead_of_isDigit hc⟩
  · exact ⟨cp '-', c :: (s ++ t), rfl, by decide⟩

theorem intText_head (n : ℤ) : ∃ c s, intText n = c :: s ∧ AtomHead c := by
  have h := minus_head (decide (n < 0)) [] (natText_ne_nil n.natAbs)
    fun _ => isDigit_of_mem_natText
  rwa [List.append_nil, ← intText_eq] at h

theorem floatText_head (x : PyFloat) : ∃ c s, floatText x = c :: s ∧ AtomHead c := by
  match x with
  | .nan => exact ⟨_, _, rfl, by decide⟩
  | .infinity neg => cases neg <;> exact ⟨_, _, rfl, by decide⟩
  | .finite neg mag =>
    have hwf := DecLit.wellFormed_reprLit mag
    have h := minus_head neg ((if (DecLit.reprLit mag).fp = [] then []
      else cp '.' :: (DecLit.reprLit mag).fp) ++ DecLit.exponentPart (DecLit.reprLit mag).ex)
      hwf.ip_ne_nil hwf.ip_digits
    rw [← List.append_assoc] at h
    simpa only [floatText, DecLit.text, minus, List.append_assoc] using h

section

variable {pad : Str}

/-- A printed value starts with a character of its own. -/
theorem printed_head (pad : Str) (v : JVal) :
    ∃ c s, printed pad v = c :: s ∧ isWs c = false ∧ c ≠ cp ']' ∧ c ≠ cp '}' := by
  match v with
  | .null => exact ⟨_, _, rfl, by decide, by decide, by decide⟩
  | .bool b => cases b <;> exact ⟨_, _, rfl, by decide, by decide, by decide⟩
  | .int n =>
    obtain ⟨c, s, h, hc⟩ := intText_head n
    exact ⟨c, s, h, hc.1, hc.2.1, hc.2.2.1⟩
  | .float x =>
    obtain ⟨c, s, h, hc⟩ := floatText_head x
    exact ⟨c, s, h, hc.1, hc.2.1, hc.2.2.1⟩
  | .str s => exact ⟨_, _, rfl, by decide, by decide, by decide⟩
  | .arr xs => exact ⟨_, _, printed_arr pad xs, by decide, by decide, by decide⟩
  | .obj kvs => exact ⟨_, _, printed_obj pad kvs, by decide, by decide, by decide⟩

theorem skipWs_printed (v : JVal) (t : Str) : skipWs (printed pad v ++ t) = printed pad v ++ t := by
  obtain ⟨c, s, h, hc, -⟩ := printed_head pad v
  rw [h, List.cons_append, skipWs_cons hc]

/-- Blanks are skipped. -/
theorem skipWs_pad (hpad : ∀ c ∈ pad, isWs c = true) (s : Str) : skipWs (pad ++ s) = skipWs s :=
  List.dropWhile_append_of_pos hpad

theorem scanAfter_close {stop : CodePoint} (h : isWs stop = false) (rest : Str) :
    scanAfter stop (stop :: rest) = .ok (.close rest) := by
  rw [scanAfter, skipWs_cons h]
  simp

theorem scanAfter_comma {stop : CodePoint} (h : cp ',' ≠ stop) (rest : Str) :
    scanAfter stop (cp ',' :: rest) = .ok (.comma (skipWs rest)) := by
  rw [scanAfter, skipWs_cons (by decide)]
  simp [h]

theorem scanKey_quote {key : Str} (hkey : NoPair key) (rest : Str) :
    scanKey (quote key ++ cp ':' :: rest) = .ok (key, skipWs rest) := by
  have hcolon : isWs (cp ':') = false := by decide
  rw [quote, List.cons_append, scanKey, if_pos rfl, List.append_assoc, List.singleton_append,
    scanString_quote hkey]
  simp only [skipWs_cons hcolon, if_true]

theorem Stop.close {c : CodePoint} (h : c = cp ',' ∨ c = cp ']' ∨ c = cp '}') (s : Str) :
    Stop (c :: s) := by
  rcases h with rfl | rfl | rfl <;> exact Stop.cons (by decide)

/-- A list of parts starts with the first of them. -/
theorem paddedJoin_cons_append (pad x : Str) (xs : List Str) (t : Str) :
    ∃ t', paddedJoin pad (x :: xs) ++ t = x ++ t' := by
  cases xs with
  | nil => exact ⟨t, rfl⟩
  | cons y ys => exact ⟨cp ',' :: (pad ++ paddedJoin pad (y :: ys) ++ t), by simp [paddedJoin]⟩

/-- After a comma, the next part is where scanning goes on. -/
theorem skipWs_paddedJoin (hpad : ∀ c ∈ pad, isWs c = true) (x : Str) (xs : List Str) (t : Str)
    (hx : ∀ t, skipWs (x ++ t) = x ++ t) :
    skipWs (pad ++ paddedJoin pad (x :: xs) ++ t) = paddedJoin pad (x :: xs) ++ t := by
  obtain ⟨t', ht⟩ := paddedJoin_cons_append pad x xs t
  rw [List.append_assoc, skipWs_pad hpad, ht, hx]

/-- What the induction on the value proves of each value inside it. -/
def Scans (pad : Str) (v : JVal) : Prop :=
  ∀ fuel rest, (printed pad v).length + 1 ≤ fuel → Stop rest →
    scanValue fuel (printed pad v ++ rest) = .ok (v, rest)

theorem scanElements_printed (hpad : ∀ c ∈ pad, isWs c = true) {xs : List JVal} (hne : xs ≠ [])
    (hxs : ∀ x ∈ xs, Scans pad x) {fuel : ℕ}
    (hfuel : (paddedJoin pad (xs.map (printed pad))).length + 2 ≤ fuel) (rest : Str) :
    scanElements fuel (paddedJoin pad (xs.map (printed pad)) ++ cp ']' :: rest) =
      .ok (xs, rest) := by
  induction xs generalizing fuel with
  | nil => exact absurd rfl hne
  | cons x xs ih =>
    obtain ⟨fuel, rfl⟩ : ∃ f, fuel = f + 1 := ⟨fuel - 1, by omega⟩
    cases xs with
    | nil =>
      simp only [List.map_cons, List.map_nil, paddedJoin] at hfuel ⊢
      rw [scanElements, hxs x (by simp) fuel _ (by omega) (.close (by simp) _)]
      simp only [scanAfter_close (show isWs (cp ']') = false by decide)]
    | cons y ys =>
      simp only [List.map_cons, paddedJoin, List.length_append, List.length_cons] at hfuel ⊢
      have hlen : (paddedJoin pad ((y :: ys).map (printed pad))).length + 2 ≤ fuel := by
        simp only [List.map_cons]
        omega
      have hmore := ih (by simp) (fun z hz => hxs z (by simp [hz])) hlen
      have hskip := skipWs_paddedJoin hpad (printed pad y) (ys.map (printed pad)) (cp ']' :: rest)
        (skipWs_printed y)
      simp only [List.map_cons] at hmore
      rw [List.append_assoc, List.cons_append, scanElements,
        hxs x (by simp) fuel _ (by omega) (.close (by simp) _)]
      simp only [scanAfter_comma (show cp ',' ≠ cp ']' by decide), hskip, hmore, Except.map]

theorem skipWs_member (kv : Str × JVal) (t : Str) :
    skipWs (printedMember pad kv ++ t) = printedMember pad kv ++ t := by
  rw [printedMember, quote, List.cons_append, List.cons_append, skipWs_cons (by decide)]

theorem scanMembers_printed (hpad : ∀ c ∈ pad, isWs c = true) {kvs : List (Str × JVal)}
    (hne : kvs ≠ []) (hkeys : ∀ kv ∈ kvs, NoPair kv.1) (hkvs : ∀ kv ∈ kvs, Scans pad kv.2)
    {fuel : ℕ} (hfuel : (paddedJoin pad (kvs.map (printedMember pad))).length + 2 ≤ fuel)
    (rest : Str) :
    scanMembers fuel (paddedJoin pad (kvs.map (printedMember pad)) ++ cp '}' :: rest) =
      .ok (kvs, rest) := by
  induction kvs generalizing fuel with
  | nil => exact absurd rfl hne
  | cons kv kvs ih =>
    obtain ⟨fuel, rfl⟩ : ∃ f, fuel = f + 1 := ⟨fuel - 1, by omega⟩
    have hkey : ∀ t, scanKey (printedMember pad kv ++ t) = .ok (kv.1, printed pad kv.2 ++ t) := by
      intro t
      rw [printedMember, List.append_assoc, List.cons_append, List.append_assoc,
        scanKey_quote (hkeys kv (by simp)), skipWs_pad hpad, skipWs_printed]
    have hlen : (printed pad kv.2).length + 1 ≤ (printedMember pad kv).length := by
      simp only [printedMember, List.length_append, List.length_cons]
      omega
    cases kvs with
    | nil =>
      simp only [List.map_cons, List.map_nil, paddedJoin] at hfuel ⊢
      rw [scanMembers, hkey]
      simp only [hkvs kv (by simp) fuel (cp '}' :: rest) (by omega) (.close (by simp) _),
        scanAfter_close (show isWs (cp '}') = false by decide)]
    | cons kv' kvs' =>
      simp only [List.map_cons, paddedJoin, List.length_append, List.length_cons] at hfuel ⊢
      have hmembers : (paddedJoin pad ((kv' :: kvs').map (printedMember pad))).length + 2 ≤ fuel := by
        simp only [List.map_cons]
        omega
      have hmore := ih (by simp) (fun z hz => hkeys z (by simp [hz]))
        (fun z hz => hkvs z (by simp [hz])) hmembers
      have hskip := skipWs_paddedJoin hpad (printedMember pad kv') (kvs'.map (printedMember pad))
        (cp '}' :: rest) (skipWs_member kv')
      simp only [List.map_cons] at hmore
      rw [List.append_assoc, List.cons_append, scanMembers, hkey]
      simp only [hkvs kv (by simp) fuel (cp ',' :: _) (by omega) (.close (by simp) _),
        scanAfter_comma (show cp ',' ≠ cp '}' by decide), hskip, hmore, Except.map]

theorem scanValue_atom {s rest : Str} {v : JVal} (hs : ∃ c t, s = c :: t ∧ AtomHead c)
    (h : scanAtom (s ++ rest) = .ok (v, rest)) {fuel : ℕ} (hfuel : 0 < fuel) :
    scanValue fuel (s ++ rest) = .ok (v, rest) := by
  obtain ⟨fuel, rfl⟩ : ∃ f, fuel = f + 1 := ⟨fuel - 1, by omega⟩
  obtain ⟨c, t, rfl, -, -, -, h₁, h₂, h₃⟩ := hs
  rw [List.cons_append] at h ⊢
  rw [scanValue, if_neg h₁, if_neg h₂, if_neg h₃, h]

/-- **Round trip**, with any text after the value that the printer could have put there. -/
theorem scans_printed (hpad : ∀ c ∈ pad, isWs c = true) {v : JVal} (hv : WellFormed v) :
    Scans pad v := by
  induction v using JVal.induct with
  | null =>
    exact fun _ rest hf _ => scanValue_atom (s := SecurityAudit.str "null") ⟨_, _, rfl, by decide⟩
      (scanAtom_literal rfl) (by omega)
  | bool b =>
    intro fuel rest hf hrest
    cases b
    · exact scanValue_atom (s := SecurityAudit.str "false") ⟨_, _, rfl, by decide⟩
        (scanAtom_literal rfl) (by omega)
    · exact scanValue_atom (s := SecurityAudit.str "true") ⟨_, _, rfl, by decide⟩
        (scanAtom_literal rfl) (by omega)
  | int n =>
    intro fuel rest hf hrest
    cases hv with
    | int h => exact scanValue_atom (intText_head n) (scanAtom_intText h hrest) (by omega)
  | float x =>
    intro fuel rest hf hrest
    exact scanValue_atom (floatText_head x) (scanAtom_floatText x hrest) (by omega)
  | str s =>
    intro fuel rest hf hrest
    obtain ⟨fuel, rfl⟩ : ∃ f, fuel = f + 1 := ⟨fuel - 1, by omega⟩
    cases hv with
    | str h =>
      rw [printed, quote, List.cons_append, scanValue, if_pos rfl, List.append_assoc,
        List.singleton_append, scanString_quote h]
      rfl
  | arr xs ih =>
    intro fuel rest hf hrest
    cases hv with
    | arr h =>
      obtain ⟨fuel, rfl⟩ : ∃ f, fuel = f + 1 := ⟨fuel - 1, by omega⟩
      rw [printed_arr, List.length_cons, List.length_append, List.length_singleton] at hf
      rw [printed_arr, List.cons_append, List.append_assoc, List.singleton_append]
      rw [scanValue, if_neg (by decide), if_neg (by decide), if_pos rfl]
      cases xs with
      | nil => rfl
      | cons x xs =>
        have hlen : (paddedJoin pad ((x :: xs).map (printed pad))).length + 2 ≤ fuel := by omega
        have hxs := scanElements_printed hpad (by simp) (fun y hy => ih y hy (h y hy)) hlen rest
        obtain ⟨t, ht⟩ := paddedJoin_cons_append pad (printed pad x) (xs.map (printed pad))
          (cp ']' :: rest)
        obtain ⟨c, s, hc, hws, hne, -⟩ := printed_head pad x
        rw [List.map_cons] at hxs ⊢
        rw [ht, hc, List.cons_append] at hxs ⊢
        simp only [skipWs_cons hws, if_neg hne, hxs]
        rfl
  | obj kvs ih =>
    intro fuel rest hf hrest
    cases hv with
    | obj hdistinct hkeys hvalues =>
      obtain ⟨fuel, rfl⟩ : ∃ f, fuel = f + 1 := ⟨fuel - 1, by omega⟩
      rw [printed_obj, List.length_cons, List.length_append, List.length_singleton] at hf
      rw [printed_obj, List.cons_append, List.append_assoc, List.singleton_append]
      rw [scanValue, if_neg (by decide), if_pos rfl]
      cases kvs with
      | nil => rfl
      | cons kv kvs =>
        have hlen : (paddedJoin pad ((kv :: kvs).map (printedMember pad))).length + 2 ≤ fuel := by
          omega
        have hkvs := scanMembers_printed hpad (by simp) hkeys
          (fun x hx => ih x hx (hvalues x hx)) hlen rest
        obtain ⟨t, ht⟩ := paddedJoin_cons_append pad (printedMember pad kv)
          (kvs.map (printedMember pad)) (cp '}' :: rest)
        have hhead : printedMember pad kv ++ t = cp '"' :: (printedMember pad kv ++ t).tail := rfl
        rw [List.map_cons] at hkvs ⊢
        rw [ht, hhead] at hkvs ⊢
        rw [skipWs_cons (by decide)]
        simp only [if_neg (show cp '"' ≠ cp '}' by decide), hkvs]
        simp only [Except.map, dictOf_of_nodup hdistinct]

end

/-- Blanks in front of a printed value are skipped. -/
theorem loads_blanks {ws pad : Str} (hws : ∀ c ∈ ws, isWs c = true ∧ 0x20 ≤ c.val ∧ c.val ≤ 0x7E)
    (hpad : ∀ c ∈ pad, isWs c = true ∧ 0x20 ≤ c.val ∧ c.val ≤ 0x7E) {v : JVal}
    (hv : WellFormed v) : loads (ws ++ printed pad v) = .ok v := by
  have hbom : (ws ++ printed pad v).head?.map Fin.val ≠ some 0xFEFF := by
    intro h
    obtain ⟨c, hc, hval⟩ := Option.map_eq_some_iff.mp h
    rcases List.mem_append.mp (List.mem_of_mem_head? hc) with hblank | htext
    · have hprint := hws c hblank
      omega
    · have hprint := printable_printed (fun c hc => (hpad c hc).2) v c htext
      omega
  have hskip : skipWs (printed pad v ++ []) = printed pad v ++ [] := skipWs_printed v []
  have hscan := scans_printed (fun c hc => (hpad c hc).1) hv (scanFuel (ws ++ printed pad v)) []
    (by simp only [scanFuel, List.length_append]; omega) .nil
  rw [List.append_nil] at hskip hscan
  rw [loads, if_neg hbom, skipWs_pad fun c hc => (hws c hc).1, hskip, hscan]
  simp [skipWs]

/-- **Round trip.** Reading a value printed in insertion order gives the value. -/
theorem loads_printed {pad : Str} (hpad : ∀ c ∈ pad, isWs c = true ∧ 0x20 ≤ c.val ∧ c.val ≤ 0x7E)
    {v : JVal} (hv : WellFormed v) : loads (printed pad v) = .ok v :=
  loads_blanks (List.forall_mem_nil _) hpad hv

/-- Putting keys in order keeps a value well-formed. -/
theorem WellFormed.sortKeys {v : JVal} (hv : WellFormed v) : WellFormed v.sortKeys := by
  induction v using JVal.induct with
  | arr xs ih =>
    cases hv with
    | arr h =>
      rw [sortKeys_arr]
      exact .arr (List.forall_mem_map.mpr fun x hx => ih x hx (h x hx))
  | obj kvs ih =>
    cases hv with
    | obj hdistinct hkeys hvalues =>
      have hmem : ∀ kv ∈ sortItems kvs, kv ∈ kvs := fun kv => (sortItems_perm kvs).mem_iff.mp
      rw [sortKeys_obj]
      refine .obj ?_ (List.forall_mem_map.mpr fun kv hkv => hkeys kv (hmem kv hkv))
        (List.forall_mem_map.mpr fun kv hkv => ih kv (hmem kv hkv) (hvalues kv (hmem kv hkv)))
      rw [List.map_map]
      exact ((sortItems_perm kvs).map Prod.fst).nodup_iff.mpr hdistinct
  | _ => exact hv

/-- Reading a value printed with its keys in order gives the value with its keys in order. -/
theorem loads_dumps {v : JVal} (hv : WellFormed v) : loads (dumps v) = .ok v.sortKeys := by
  rw [← printed_sortKeys]
  exact loads_printed (by simp) hv.sortKeys

theorem loads_blank_dumps {v : JVal} (hv : WellFormed v) :
    loads (cp ' ' :: dumps v) = .ok v.sortKeys := by
  rw [← printed_sortKeys]
  exact loads_blanks (List.forall_mem_singleton.mpr (by decide)) (by simp) hv.sortKeys

/-- Values printed the same are the same JSON value up to the order of keys. -/
theorem dumps_inj {a b : JVal} (ha : WellFormed a) (hb : WellFormed b) (h : dumps a = dumps b) :
    SameJson a b := by
  have hsame := loads_dumps ha
  rw [h, loads_dumps hb] at hsame
  exact (Except.ok.inj hsame).symm

theorem dumps_eq_iff {a b : JVal} (ha : WellFormed a) (hb : WellFormed b) :
    dumps a = dumps b ↔ SameJson a b :=
  ⟨dumps_inj ha hb, dumps_congr⟩

end JVal

end SecurityAudit
