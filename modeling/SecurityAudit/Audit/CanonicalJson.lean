import SecurityAudit.Json.Native
import SecurityAudit.Audit.RecordIntegrity

/-!
# The canonical form of a context

`_canonical_json` is given an object as the `dict` or as text that spells it. Either way the
result is one text for each object up to the order of keys, and objects that differ in anything
else have different texts. An integer of more than `maxStrDigits` digits, which only a `dict` can
hold, has no text: `json.dumps` raises.

`canonicalJson` leaves that exception out. The two agree on whatever `json.loads` returns, which
is what the sink hashes, and on every column within the limit.
-/

namespace SecurityAudit

open JVal RecordIntegrity

/-- `_canonical_json` with the exception of `json.dumps` for an integer of too many digits. -/
def canonicalJsonText (value : JVal) : Except Exc Str :=
  if (jsonReading value).intsFit = true then .ok (canonicalJson value) else .error .valueError

/-- The value is the object as a `dict`, or any text that is read as it. -/
inductive Presents : JVal → JVal → Prop where
  | parsed (kvs : List (Str × JVal)) : Presents (.obj kvs) (.obj kvs)
  | text {s : Str} {kvs : List (Str × JVal)} (h : loads s = .ok (.obj kvs)) :
      Presents (.str s) (.obj kvs)

variable {value a b : JVal} {s t : Str}

theorem Presents.jsonReading (h : Presents value a) : jsonReading value = a := by
  cases h with
  | parsed kvs => rfl
  | text h => rw [RecordIntegrity.jsonReading, h]

/-- What `canonicalJson` leaves out is the exception. -/
theorem canonicalJsonText_eq_ok :
    canonicalJsonText value = .ok s ↔
      (jsonReading value).intsFit = true ∧ s = canonicalJson value := by
  unfold canonicalJsonText
  split_ifs with hfit
  · simp only [Except.ok.injEq, hfit, true_and]
    exact eq_comm
  · simp [hfit]

/-- What was read from JSON text has its canonical text. -/
theorem canonicalJsonText_of_wellFormed (h : (jsonReading value).WellFormed) :
    canonicalJsonText value = .ok (canonicalJson value) :=
  canonicalJsonText_eq_ok.mpr ⟨h.intsFit, rfl⟩

/-- The canonical text of a presented object is the printed object. -/
theorem Presents.canonicalJsonText (h : Presents value a) (hfit : a.intsFit = true) :
    canonicalJsonText value = .ok (dumps a) := by
  have hreading := h.jsonReading
  refine canonicalJsonText_eq_ok.mpr ⟨?_, ?_⟩
  · rwa [hreading]
  · rw [canonicalJson, hreading]

/-- The exception is a `ValueError`, and only integers of too many digits cause it. -/
theorem Presents.canonicalJsonText_eq_error (h : Presents value a) :
    SecurityAudit.canonicalJsonText value = .error .valueError ↔ ¬a.intsFit = true := by
  unfold SecurityAudit.canonicalJsonText
  rw [h.jsonReading]
  split_ifs with hfit
  · simp [hfit]
  · simp [hfit]

/-- **A canonical form.** Two objects, each given as a `dict` or as any text that spells it, have
the same canonical text exactly if they are the same up to the order of keys. An object has that
text exactly if all its integers have few enough digits, and else `_canonical_json` raises. -/
theorem canonical_json_iff {value' : JVal} (ha : a.JsonNative) (hb : b.JsonNative)
    (hvalue : Presents value a) (hvalue' : Presents value' b) :
    (a.intsFit = true → b.intsFit = true →
      ∃ s t, canonicalJsonText value = .ok s ∧ canonicalJsonText value' = .ok t ∧
        (s = t ↔ SameJson a b)) ∧
    (canonicalJsonText value = .error .valueError ↔ ¬a.intsFit = true) := by
  constructor
  · intro hfit hfit'
    exact ⟨dumps a, dumps b, hvalue.canonicalJsonText hfit, hvalue'.canonicalJsonText hfit',
      dumps_eq_iff (ha.wellFormed hfit) (hb.wellFormed hfit')⟩
  · exact hvalue.canonicalJsonText_eq_error

namespace Sample

/-- `{"b": 1, "a": "é"}`. -/
def context : List (Str × JVal) := [(str "b", .int 1), (str "a", .str (str "é"))]

theorem native_context : JsonNative (.obj context) := by
  have hclean : ∀ s : Str, (s.all fun c => !isSurrogate c) = true → Clean s := by
    intro s hs
    simpa [Clean] using hs
  refine .obj (by decide) ?_ ?_
  · simp only [context, List.forall_mem_cons]
    exact ⟨hclean _ (by decide), hclean _ (by decide), by simp⟩
  · simp only [context, List.forall_mem_cons]
    exact ⟨.int 1, .str (hclean _ (by decide)), by simp⟩

end Sample

/-- As text with blanks and an escape, and as a `dict` in the other order. -/
theorem canonical_json_iff_reordered : ∃ s t,
    canonicalJsonText (.str (printed [cp ' '] (.obj Sample.context))) = .ok s ∧
    canonicalJsonText (.obj Sample.context.reverse) = .ok t ∧
    (s = t ↔ SameJson (.obj Sample.context) (.obj Sample.context.reverse)) := by
  have hreverse : JsonNative (.obj Sample.context.reverse) := by
    cases Sample.native_context with
    | obj distinct keys values =>
      exact .obj (by decide) (fun kv hkv => keys kv (List.mem_reverse.mp hkv))
        fun kv hkv => values kv (List.mem_reverse.mp hkv)
  have htext : loads (printed [cp ' '] (.obj Sample.context)) = .ok (.obj Sample.context) :=
    loads_printed (List.forall_mem_singleton.mpr (by decide))
      (Sample.native_context.wellFormed (by decide))
  exact (canonical_json_iff Sample.native_context hreverse (.text htext) (.parsed _)).1
    (by decide) (by decide)

namespace Sample

/-- `{"n": 10 ** 4300}`, an integer of 4301 digits. -/
def longInteger : JVal := .obj [(str "n", .int ((10 ^ maxStrDigits : ℕ) : ℤ))]

theorem native_longInteger : JsonNative longInteger := by
  refine .obj (by decide) ?_ ?_
  · exact List.forall_mem_singleton.mpr fun c hc => by
      rw [List.mem_singleton.mp hc]
      decide
  · exact List.forall_mem_singleton.mpr (.int _)

theorem longInteger_long : ¬longInteger.intsFit = true := by
  intro hfit
  rw [longInteger, intsFit, intsFitItems_eq_true, List.forall_mem_singleton, intsFit,
    decide_eq_true_eq, Int.natAbs_natCast] at hfit
  have hlt := (natText_length_le_iff (by decide)).mp hfit
  exact lt_irrefl _ hlt

end Sample

/-- The `dict` with an integer of 4301 digits has no canonical text to be equal to another. -/
theorem canonical_json_raises :
    Sample.longInteger.JsonNative ∧ Presents Sample.longInteger Sample.longInteger ∧
    ¬∃ s t, canonicalJsonText Sample.longInteger = .ok s ∧
      canonicalJsonText Sample.longInteger = .ok t ∧
      (s = t ↔ SameJson Sample.longInteger Sample.longInteger) := by
  refine ⟨Sample.native_longInteger, .parsed _, ?_⟩
  intro ⟨s, _, hs, _⟩
  have hreading := (Presents.parsed [(str "n", .int ((10 ^ maxStrDigits : ℕ) : ℤ))]).jsonReading
  have hfit := (canonicalJsonText_eq_ok.mp hs).1
  rw [show jsonReading Sample.longInteger = Sample.longInteger from hreading] at hfit
  exact Sample.longInteger_long hfit

end SecurityAudit
