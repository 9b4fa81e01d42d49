import AnyRpc.Reader.Calls
import AnyRpc.Xml.Reader

/-! # The XML reader on any bytes

What each part of the reader does on any text: it takes bytes, makes the calls of its part or throws
within such calls, and never runs out of depth. -/

namespace AnyRpc

open Library Reader

/-! ## Tags -/

namespace XmlTag

/-- A fault of a tag is an error. -/
theorem fault_isError (message : Bytes) : (fault message).IsError :=
  ⟨_, rfl, show ErrorCode.tagInvalid ≠ 0 by decide⟩

/-- A tag takes at least its last character. -/
theorem wp_scan (endTagMarkFound : Bool) (tagStr : Bytes) (tagEndFound : Bool) (s : Bytes) :
    wp (scan endTagMarkFound tagStr tagEndFound) (fun _ r => r.length < s.length)
      (fun f _ => f.IsError) s := by
  induction s generalizing tagStr tagEndFound with
  | nil => exact ⟨_, rfl, by decide⟩
  | cons c s ih =>
    have hlt {tagStr : Bytes} {tagEndFound : Bool} :
        wp (scan endTagMarkFound tagStr tagEndFound) (fun _ r => r.length < (c :: s).length)
          (fun f _ => f.IsError) s :=
      wp_mono (ih tagStr tagEndFound) (fun _ _ h => h.trans (Nat.lt_succ_self _)) fun _ _ h => h
    rw [wp, scan]
    split_ifs
    · exact Nat.lt_succ_self _
    · exact fault_isError _
    · exact fault_isError _
    · show s.tail.length < (c :: s).length
      rw [List.length_tail, List.length_cons]
      omega
    · exact fault_isError _
    · exact hlt
    · exact hlt
    · exact fault_isError _
    · exact hlt

/-- A tag takes bytes. -/
theorem wp_read (s : Bytes) :
    wp read (fun _ r => r.length < s.length) (fun f _ => f.IsError) s := by
  by_cases hslash : s.head? = some 0x2f
  · obtain ⟨t, rfl⟩ : ∃ t, s = 0x2f :: t := by
      cases s with
      | nil => cases hslash
      | cons c t =>
        cases hslash
        exact ⟨t, rfl⟩
    rw [wp, read_slash]
    refine wp_seq (wp_scan true [] false t) ?_
    rintro ⟨tagStr, emptyTag⟩ r hr
    exact hr.trans (Nat.lt_succ_self _)
  · rw [wp, read_of_ne hslash]
    refine wp_seq (wp_scan false [] false s) ?_
    rintro ⟨tagStr, emptyTag⟩ r hr
    exact hr

end XmlTag

namespace XmlReader

/-- At most `n` bytes are left. -/
def Left (n : ℕ) (s : ReaderState XmlReader) : Prop := s.is.rest.length ≤ n

/-- So is what the reader throws. -/
theorem throwTag_isError {α : Type} (message : Bytes) (s : ReaderState XmlReader) :
    ∃ f, (throwTag message : ReadM α) s = .error f s ∧ f.IsError :=
  ⟨_, rfl, _, rfl, show ErrorCode.tagInvalid ≠ 0 by decide⟩

/-- A tag takes bytes and makes no call. -/
theorem calls_getNextTag {n : ℕ} {s : ReaderState XmlReader} (h : Left n s) :
    Calls {[]} {[]} (fun _ s' => s'.is.rest.length < n) Fault.IsError getNextTag s := by
  -- The part behind the `<`.
  have hread (s : ReaderState XmlReader) (h : Left n s) :
      Calls {[]} {[]} (fun _ s' => s'.is.rest.length < n) Fault.IsError (do
        modify fun s => { s with sub := { s.sub with tagSkipFirstChar := false } }
        onText XmlTag.read : ReadM XmlTag) s := by
    refine emits_bind_of_ok (modify_apply _ s) rfl (calls_onText ?_)
    refine wp_mono (XmlTag.wp_read s.is.rest) (fun _ r hr => ?_) fun _ _ h => h
    show (s.is.rest.drop (s.is.rest.length - r.length)).length < n
    rw [Left] at h
    rw [List.length_drop]
    omega
  cases hskip : s.sub.tagSkipFirstChar with
  | true =>
    refine emits_of_eq ?_ rfl (hread s h)
    simp [getNextTag, hskip]
  | false =>
    let s₁ := { s with is := s.is.advance (s.is.rest.takeWhile isSpace).length }
    have hrest : s₁.is.rest = s.is.rest.drop (s.is.rest.takeWhile isSpace).length := rfl
    cases hs₁ : s₁.is.rest with
    | nil =>
      rw [hrest] at hs₁
      have hrun : ∃ e, getNextTag s = .error (.exception e) s₁ ∧ e.code = ErrorCode.termination := by
        simp [getNextTag, hskip, ReadStream.eof, hs₁, s₁]
      obtain ⟨e, hrun, hcode⟩ := hrun
      exact emits_of_error hrun rfl (List.append_nil _).symm ⟨e, rfl, by rw [hcode]; decide⟩
    | cons c t =>
      rw [hrest] at hs₁
      by_cases hc : c = 0x3c
      · have hrun : getNextTag s = (do
            modify fun s => { s with sub := { s.sub with tagSkipFirstChar := false } }
            onText XmlTag.read : ReadM XmlTag) { s₁ with is := s₁.is.advance 1 } := by
          simp [getNextTag, hskip, ReadStream.eof, ReadStream.peek, hs₁, s₁, hc]
        refine emits_of_eq hrun rfl (hread _ ?_)
        rw [Left] at h ⊢
        show ((s.is.rest.drop _).drop 1).length ≤ n
        rw [List.length_drop, List.length_drop]
        omega
      · have hrun : ∃ e, getNextTag s = .error (.exception e) { s₁ with is := s₁.is.advance 1 } ∧
            e.code = ErrorCode.tagInvalid := by
          simp [getNextTag, hskip, ReadStream.eof, ReadStream.peek, hs₁, s₁, hc, throwTag]
        obtain ⟨e, hrun, hcode⟩ := hrun
        exact emits_of_error hrun rfl (List.append_nil _).symm ⟨e, rfl, by rw [hcode]; decide⟩

/-- A tag that is expected. -/
theorem calls_expectTag {n : ℕ} {s : ReaderState XmlReader} (h : Left n s) (expected : XmlTag) :
    Calls {[]} {[]} (fun _ s' => s'.is.rest.length < n) Fault.IsError (expectTag expected) s := by
  refine (calls_getNextTag h).silent rfl fun tag s' hs' => ?_
  by_cases htag : tag = expected
  · exact emits_of_ok (b := ()) (by simp [htag]) rfl (List.append_nil _).symm hs'
  · obtain ⟨f, hf, herror⟩ := throwTag_isError (α := Unit)
      (ascii "Parse error: found " ++ tag.toText ++ ascii " expected " ++ expected.toText) s'
    exact emits_of_error (by rw [if_pos htag]; exact hf) rfl (List.append_nil _).symm herror

end XmlReader

end AnyRpc
