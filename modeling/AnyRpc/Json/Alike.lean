import AnyRpc.Json.Fed
import AnyRpc.Xml.Fed

/-! # The two ways from a JSON text to a writer

The calls of the reader go to the writer, or they build a document whose traversal goes there. The two
ways agree exactly on the texts without an array, because the reader starts an array by the call that
no writer has. -/

namespace AnyRpc.Json

open Library Handler NumberText

/-- Feeding a writer from a text agrees with the way by the document exactly if the text has no array,
the writer takes every string, key and double of it, and the document stores every object. -/
theorem writesAlike_iff [Platform] [DoubleDigits] {is : ReadStream} {w₁ p w₂ : Bytes} {j : Tree}
    (hw₁ : Spaces w₁) (hw₂ : Spaces w₂) (hp : Denotes .value p j)
    (hrest : is.rest = w₁ ++ (p ++ w₂)) (haccepts : Accepts is) :
    (∀ w : JsonWriter, 0 ≤ w.level →
        (WritesAlike JsonWriter.os is w ↔
          j.All (Tree.Taken w.TakesString w.TakesDouble) ∧ j.All Tree.Stored)) ∧
      ∀ w : XmlWriter, 0 ≤ w.level →
        (WritesAlike XmlWriter.os is w ↔
          j.All (Tree.Taken XmlWriter.TakesString w.TakesDouble) ∧ j.All Tree.Stored) := by
  constructor
  · intro w hw
    exact writesAlike_iff_of_nests (JsonWriter.nests hw) JsonWriter.ignores
      JsonWriter.reported_handle (fun _ => rfl) (fun _ => rfl) JsonWriter.os hw₁ hw₂ hp hrest
      haccepts (JsonWriter.deeper_zero w)
  · intro w hw
    exact writesAlike_iff_of_nests (XmlWriter.nests hw) XmlWriter.ignores XmlWriter.reported_handle
      (fun _ => rfl) (fun _ => rfl) XmlWriter.os hw₁ hw₂ hp hrest haccepts (XmlWriter.deeper_zero w)

/-- The stream of a text. -/
def streamOf (text : Bytes) : ReadStream := .inSituString text false true 0

theorem accepts_of_returns [Platform] {text : Bytes}
    (h : threw (JsonReader.parse (JsonReader.new (streamOf text))) = false) :
    Accepts (streamOf text) := by
  rw [Accepts]
  cases hparse : JsonReader.parse (JsonReader.new (streamOf text)) with
  | ok a s' => exact ⟨s', rfl⟩
  | error f s' =>
    rw [hparse] at h
    cases h

/-- An object with an integer. -/
theorem denotes_member :
    Denotes .value (ascii "\x7b\"a\":12\x7d")
      (.object [(ascii "a", .integer false (ascii "12"))]) := by
  have hdigits : IntDigits (ascii "12") := .inr ⟨0x31, ascii "2", rfl, by decide, by decide +kernel⟩
  have hkey : Chars (ascii "a") (ascii "a") :=
    .cons (.unescaped (by decide) (by decide) (by decide)) .nil
  have hvalue : Denotes .value (literal false (ascii "12")) _ := .integer hdigits
  exact .object spaces_nil (.lastMember hkey spaces_nil spaces_nil hvalue spaces_nil)

/-- Both writers write the object alike. -/
theorem writesAlike_iff_member :
    letI := Platform.blank
    letI := DoubleDigits.blank
    WritesAlike JsonWriter.os (streamOf (ascii "\x7b\"a\":12\x7d")) ({} : JsonWriter) ∧
      WritesAlike XmlWriter.os (streamOf (ascii "\x7b\"a\":12\x7d")) ({} : XmlWriter) := by
  let _ := Platform.blank
  let _ := DoubleDigits.blank
  have haccepts : Accepts (streamOf (ascii "\x7b\"a\":12\x7d")) :=
    accepts_of_returns (by decide +kernel)
  obtain ⟨hjson, hxml⟩ :=
    writesAlike_iff spaces_nil spaces_nil denotes_member rfl haccepts
  have hevent : integerEvent false (ascii "12") = .ok (.uint 12) := by decide +kernel
  have htaken (S : Bytes → Prop) (D : BitVec 64 → Prop) (hS : S (ascii "a")) :
      (Tree.object [(ascii "a", .integer false (ascii "12"))]).All (Tree.Taken S D) := by
    refine Tree.all_object.mpr ⟨List.forall_mem_singleton.mpr hS, ?_⟩
    refine List.forall_mem_singleton.mpr fun d hd => ?_
    rw [hevent] at hd
    cases hd
  have hstored : (Tree.object [(ascii "a", .integer false (ascii "12"))]).All Tree.Stored :=
    Tree.all_object.mpr ⟨show 1 ≤ Value.maxMapCapacity by decide, List.forall_mem_singleton.mpr trivial⟩
  exact ⟨(hjson _ le_rfl).mpr ⟨htaken _ _ nofun, hstored⟩,
    (hxml _ le_rfl).mpr ⟨htaken _ _ (show (0 : UInt8) ∉ ascii "a" by decide), hstored⟩⟩

theorem not_writesAlike_of_parseError [Platform] {σ : Type} [Handler σ] {os : σ → Bytes}
    {is : ReadStream} {w : σ}
    (h : (JsonReader.parseStream is w).map (fun r => r.hasParseError) = .ok true) :
    ¬ WritesAlike os is w := by
  rintro ⟨r, hrun, hok, -⟩
  rw [hrun, Except.map, hok] at h
  cases h

/-- An empty array is accepted, and refused by both writers. -/
theorem not_writesAlike_emptyArray :
    letI := Platform.blank
    letI := DoubleDigits.blank
    Denotes .value (ascii "[]") (.array []) ∧ Accepts (streamOf (ascii "[]")) ∧
      ¬ WritesAlike JsonWriter.os (streamOf (ascii "[]")) ({} : JsonWriter) ∧
      ¬ WritesAlike XmlWriter.os (streamOf (ascii "[]")) ({} : XmlWriter) := by
  let _ := Platform.blank
  let _ := DoubleDigits.blank
  refine ⟨.emptyArray spaces_nil, accepts_of_returns (by decide +kernel), ?_, ?_⟩
  · exact not_writesAlike_of_parseError (by decide +kernel)
  · exact not_writesAlike_of_parseError (by decide +kernel)

end AnyRpc.Json
