import AnyRpc.Document.Limits
import AnyRpc.Internal.Base64
import AnyRpc.Json.Deliver

/-! # What a document makes of a JSON text

A text is read as a value by way of the tree of what it says (`Json.Tree.Means`): whichever way its
strings are passed on, its calls build a value with the same contents. -/

namespace AnyRpc

open Library NumberText Json

/-! ## Integers -/

/-- The digits that are written are those of the number. -/
theorem digitsFrom_map_digitChar {ds : List ℕ} (hds : ∀ d ∈ ds, d < 10) (acc : ℕ) :
    digitsFrom acc (ds.map digitChar) = acc * 10 ^ ds.length + Nat.ofDigits 10 ds.reverse := by
  induction ds generalizing acc with
  | nil => simp
  | cons d ds ih =>
    have hnat := toNat_digitChar (hds d List.mem_cons_self)
    have hvalue : digitValue (digitChar d) = d := by
      unfold digitValue
      omega
    rw [List.map_cons, digitsFrom_cons, hvalue, ih fun d' hd' => hds d' (List.mem_cons_of_mem _ hd'),
      List.reverse_cons, Nat.ofDigits_append, Nat.ofDigits_singleton, List.length_reverse,
      List.length_cons]
    ring

theorem digitsFrom_decimal (n : ℕ) : digitsFrom 0 (decimal n) = n := by
  unfold decimal
  by_cases hn : n = 0
  · rw [if_pos hn, ParseNumber.digitsFrom_zero, hn]
  · have hlt : ∀ d ∈ (Nat.digits 10 n).reverse, d < 10 := fun d hd =>
      Nat.digits_lt_base (by decide) (List.mem_reverse.mp hd)
    rw [if_neg hn, digitsFrom_map_digitChar hlt, Nat.zero_mul, Nat.zero_add, List.reverse_reverse,
      Nat.ofDigits_digits]

/-- A number is written without a superfluous zero. -/
theorem intDigits_decimal (n : ℕ) : IntDigits (decimal n) := by
  by_cases hn : n = 0
  · exact .inl (by rw [decimal, if_pos hn])
  · have hdigits : Nat.digits 10 n ≠ [] := Nat.digits_ne_nil_iff_ne_zero.mpr hn
    have hlast := Nat.getLast_digit_ne_zero 10 hn
    have hmem := Nat.digits_lt_base (by decide : 1 < 10) (List.getLast_mem hdigits)
    have hsplit : decimal n = digitChar ((Nat.digits 10 n).getLast hdigits) ::
        ((Nat.digits 10 n).dropLast.reverse.map digitChar) := by
      rw [decimal, if_neg hn]
      conv_lhs => rw [← List.dropLast_append_getLast hdigits]
      rw [List.reverse_append, List.reverse_singleton, List.singleton_append, List.map_cons]
    refine .inr ⟨_, _, hsplit, fun h => hlast ?_, fun d => isDigit_of_mem_decimal⟩
    have hnat := congrArg UInt8.toNat h
    rw [toNat_digitChar hmem] at hnat
    exact Nat.add_left_cancel (n := 0x30) hnat

/-- An integer is written as a literal of it. -/
theorem decimalInt_eq_literal (z : ℤ) :
    decimalInt z = literal (decide (z < 0)) (decimal z.natAbs) ∧
      literalValue (decide (z < 0)) (decimal z.natAbs) = z := by
  rw [decimalInt, literal, literalValue, digitsFrom_decimal]
  by_cases hz : z < 0
  · rw [if_pos hz, decide_eq_true hz, if_pos rfl, if_pos rfl]
    exact ⟨rfl, by omega⟩
  · rw [if_neg hz, decide_eq_false hz, if_neg Bool.false_ne_true, if_neg Bool.false_ne_true]
    exact ⟨rfl, by omega⟩

variable [Platform]

/-- The call for an integer in range. -/
theorem integerEvent_of_inRange {minus : Bool} {ds : Bytes} (hds : IntDigits ds)
    (hrange : Number.InRange (literalValue minus ds)) :
    integerEvent minus ds = .ok (literalScalar minus (literalValue minus ds)) := by
  have hends : EndsNumber [] := by
    rintro _ ⟨⟩
  have hparse := ParseNumber.wp_parse_literal minus hds hends
  rw [List.append_nil] at hparse
  rw [integerEvent]
  cases hrun : ParseNumber.parse (literal minus ds) with
  | error f r =>
    obtain ⟨hbig, -⟩ := hparse.of_error hrun
    rw [integerTooBig_of_le ((inRange_literalValue minus ds).mp hrange)] at hbig
    cases hbig
  | ok n r =>
    obtain ⟨-, -, hn⟩ := hparse.of_ok hrun
    exact JsonReader.numberEvent_of_inRange hn hrange

namespace Json.Tree

open EventTree

variable {convert : Bool}

/-! ## Trees that stand for a value -/

/-- The calls for what a text says build a value, up to the capacities of its containers. -/
def Means (convert : Bool) (j : Tree) (v : Value) : Prop :=
  ∀ copy, ∃ t, j.calls copy = .ok t ∧ Builds convert t v

theorem means_null : Means convert null .null := fun _ => ⟨_, rfl, builds_leaf rfl⟩

theorem means_bool (b : Bool) : Means convert (bool b) (.bool b) := fun _ =>
  ⟨_, rfl, builds_leaf (by cases b <;> rfl)⟩

theorem means_string (bytes : Bytes) : Means convert (string bytes) (.string bytes) := fun _ =>
  ⟨_, rfl, builds_leaf (if_pos (by rw [StrArg.terminated]; simp))⟩

/-- An integer that is written means itself. -/
theorem means_integer {z : ℤ} (hz : Number.InRange z) :
    Means convert (integer (decide (z < 0)) (decimal z.natAbs)) (.number (.ofInteger z)) := by
  intro copy
  obtain ⟨-, hvalue⟩ := decimalInt_eq_literal z
  have hrange : Number.InRange (literalValue (decide (z < 0)) (decimal z.natAbs)) := by rwa [hvalue]
  have hevent := integerEvent_of_inRange (intDigits_decimal z.natAbs) hrange
  have hscalar := Scalar.build_of_integer (integer?_literalScalar hrange)
  rw [hvalue] at hevent hscalar
  refine ⟨.leaf (literalScalar (decide (z < 0)) z), ?_, builds_leaf hscalar⟩
  rw [calls, hevent]
  rfl

/-- The calls for the elements build them, one by one. -/
theorem elementsCalls_of_means {js : List Tree} {es : List Value}
    (h : List.Forall₂ (Means convert) js es) (copy : Bool) :
    ∃ ts, elementsCalls copy js = .ok ts ∧ List.Forall₂ (Builds convert) ts es := by
  induction h with
  | nil => exact ⟨[], rfl, .nil⟩
  | cons hj _ ih =>
    obtain ⟨t, ht, hbuilds⟩ := hj copy
    obtain ⟨ts, hts, hmore⟩ := ih
    exact ⟨t :: ts, by rw [elementsCalls, ht, hts]; rfl, .cons hbuilds hmore⟩

/-- The calls for the members build them, one by one. -/
theorem membersCalls_of_means {js : List (Bytes × Tree)} {ms : List (Bytes × Value)}
    (h : List.Forall₂ (fun j m => j.1 = m.1 ∧ Means convert j.2 m.2) js ms) (copy : Bool) :
    ∃ ts, membersCalls copy js = .ok ts ∧ List.Forall₂ (BuildsMember convert) ts ms := by
  induction h with
  | nil => exact ⟨[], rfl, .nil⟩
  | @cons j m js ms hj _ ih =>
    obtain ⟨hkey, hmeans⟩ := hj
    obtain ⟨t, ht, hbuilds⟩ := hmeans copy
    obtain ⟨ts, hts, hmore⟩ := ih
    refine ⟨(some { bytes := j.1, copy }, t) :: ts, ?_, .cons ?_ hmore⟩
    · rw [membersCalls, ht, hts]
      rfl
    · exact ⟨_, rfl, by rw [StrArg.terminated]; simp, hkey, hbuilds⟩

/-- An array within the limit that is not taken for an extension. -/
theorem means_array {js : List Tree} {es : List Value} (h : List.Forall₂ (Means convert) js es)
    (hlen : es.length ≤ maxPushedElements) (hx : convert = true → extension? es = none) (c : ℕ) :
    Means convert (array js) (.array es c) := by
  intro copy
  obtain ⟨ts, hts, hbuilds⟩ := elementsCalls_of_means h copy
  refine ⟨.array none ts, by rw [calls, hts]; rfl, builds_array hbuilds ?_ hx none c⟩
  rwa [hbuilds.length_eq]

/-- An object within the limit. -/
theorem means_object {js : List (Bytes × Tree)} {ms : List (Bytes × Value)}
    (h : List.Forall₂ (fun j m => j.1 = m.1 ∧ Means convert j.2 m.2) js ms)
    (hlen : ms.length ≤ Value.maxMapCapacity) (c : ℕ) : Means convert (object js) (.map ms c) := by
  intro copy
  obtain ⟨ts, hts, hbuilds⟩ := membersCalls_of_means h copy
  refine ⟨.map none ts, by rw [calls, hts]; rfl, builds_map hbuilds ?_ none c⟩
  rwa [hbuilds.length_eq]

/-- With the conversion, the marker and a text in base 64 mean a binary. -/
theorem means_binary {b : Bytes} (hb : b ≠ []) :
    Means true (array [string Document.base64String, string (Internal.base64Encode b)])
      (.binary b) := by
  intro copy
  refine ⟨_, rfl, .binary b, ?_, rfl⟩
  have hx : extension? [.string Document.base64String, .string (Internal.base64Encode b)] =
      some (.base64 (Internal.base64Encode b)) := by
    have hdate : Document.strncmpEq Document.base64String Document.dateTimeString = false := by decide
    have hbase : Document.strncmpEq Document.base64String Document.base64String = true := by decide
    rw [extension?, hdate, hbase]
    rfl
  have hbuild : buildArray true (.leaf (.string { bytes := Document.base64String, copy }))
      [.leaf (.string { bytes := Internal.base64Encode b, copy })] =
        .ok ([.string Document.base64String, .string (Internal.base64Encode b)],
          Value.defaultArrayCapacity) := by
    cases copy <;> rfl
  rw [build_array_cons, hbuild, Except.bind, finish_of_some _ hx, Extension.convert, outcome_eq_ok,
    Document.convertBase64, Internal.base64Decode_base64Encode]
  simp [hb]

end Json.Tree

/-! ## Reading -/

/-- A text that means a value is read as it, in place or not. -/
theorem JsonReader.parseStream_of_means {w₁ p w₂ : Bytes} {j : Json.Tree} {v : Value}
    (hw₁ : Json.Spaces w₁) (hw₂ : Json.Spaces w₂) (hp : Json.Denotes .value p j)
    {is : ReadStream} (hrest : is.rest = w₁ ++ (p ++ w₂)) {d : Document}
    (hj : j.Means d.convertExtensions v) :
    ∃ r, parseStream is d = .ok r ∧ r.hasParseError = false ∧
      r.handler.value.contents = v.contents := by
  have hdelivers := parse_delivers hw₁ hw₂ hp (s := { new is with calls := [] }) hrest
  obtain ⟨t, ht, w, hbuild, hcontents⟩ := hj (copies { new is with calls := [] })
  rw [ht] at hdelivers
  obtain ⟨s', hrun, -, hstep⟩ := hdelivers
  exact ⟨_, Reader.parseStream_of_build hrun (by rw [hstep.events]; rfl) hbuild, rfl, hcontents⟩

end AnyRpc
