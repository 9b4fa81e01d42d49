import AnyRpc.Internal.Base64Stream
import AnyRpc.Xml.Output

/-! # Base64 in the XML reader

The reader hands `Base64Decode` its own stream, and for what is decoded either a local stream or the
same one. Both ways do what the decoder does on bytes: in place there is always room for what is put. -/

namespace AnyRpc.XmlReader

open Library Reader

/-- A run that returns what the decoder on bytes returns, with the same bytes put and left. -/
def DecodesTo (inPlace : Bool) (r : Bool × Bytes × Bytes)
    (run : EStateM.Result Fault (ReaderState XmlReader) Bool) : Prop :=
  ∃ s', run = .ok r.1 s' ∧ s'.is.rest = r.2.2 ∧ Holds inPlace 0 r.2.1 s'

/-- What is put at the pads, by a reader that has taken the first one. -/
theorem base64Decode_pad {inPlace : Bool} {fuel : ℕ} {data : List ℕ} {out : Bytes}
    {s : ReaderState XmlReader} {rest : Bytes} (hrest : s.is.rest = 0x3d :: rest)
    (h : Holds inPlace data.length out s) :
    DecodesTo inPlace (Internal.base64DecodeStreamPad 0x3c rest out data)
      (base64Decode inPlace (fuel + 1) data s) := by
  have htake := h.take hrest
  have hignore : Internal.base64Pad ≠ Internal.base64Ignore := by decide
  have hpad : Internal.base64Value 0x3d = Internal.base64Pad := by decide
  match data with
  | [] =>
    refine ⟨_, ?_, ?_, htake.mono (Nat.zero_le _)⟩
    · simp [base64Decode, ReadStream.eof, ReadStream.peek, hrest, hignore, hpad,
        Internal.base64DecodeStreamPad]
    · simp [hrest, Internal.base64DecodeStreamPad]
  | [_] =>
    refine ⟨_, ?_, ?_, htake.mono (Nat.zero_le _)⟩
    · simp [base64Decode, ReadStream.eof, ReadStream.peek, hrest, hignore, hpad,
        Internal.base64DecodeStreamPad]
    · simp [hrest, Internal.base64DecodeStreamPad]
  | [data0, data1] =>
    have hget := htake.get
    rw [Internal.base64DecodeStreamPad, List.headD_eq_head?_getD]
    by_cases hnext : Internal.base64Value (rest.head?.getD 0) = Internal.base64Pad
    · obtain ⟨s', hput, hrest', hholds⟩ :=
        osPut_eq (UInt8.ofNat ((data0 <<< 2) + (data1 >>> 4))) hget (by simp)
      rw [if_neg (not_not_intro hnext)]
      refine ⟨s', ?_, ?_, hholds.mono (Nat.zero_le _)⟩
      · simp only [ReadStream.advance_advance, Nat.reduceAdd] at hput
        simp [base64Decode, ReadStream.eof, ReadStream.peek, hrest, hignore, hpad, hnext, hput,
          hrest', -UInt8.ofNat_add]
      · simp [hrest', hrest]
    · rw [if_pos hnext]
      refine ⟨_, ?_, ?_, hget.mono (Nat.zero_le _)⟩
      · simp [base64Decode, ReadStream.eof, ReadStream.peek, hrest, hignore, hpad, hnext]
      · simp [hrest]
  | [data0, data1, data2] =>
    obtain ⟨s', hput, hrest', hholds⟩ := osPutBytes_eq [UInt8.ofNat ((data0 <<< 2) + (data1 >>> 4)),
      UInt8.ofNat (((data1 &&& 0x0f) <<< 4) + (data2 >>> 2))] htake (by simp)
    rw [Internal.base64DecodeStreamPad]
    refine ⟨s', ?_, ?_, hholds.mono (Nat.zero_le _)⟩
    · simp [base64Decode, ReadStream.eof, ReadStream.peek, hrest, hignore, hpad, hput, hrest',
        -UInt8.ofNat_add]
    · simp [hrest', hrest]
  | _ :: _ :: _ :: _ :: _ =>
    refine ⟨_, ?_, ?_, htake.mono (Nat.zero_le _)⟩
    · simp [base64Decode, ReadStream.eof, ReadStream.peek, hrest, hignore, hpad,
        Internal.base64DecodeStreamPad]
    · simp [hrest, Internal.base64DecodeStreamPad]

/-- `Base64Decode` of the reader. In place the gap is no shorter than the current quantum, from which
fewer bytes are decoded than were taken for it. -/
theorem base64Decode_eq {inPlace : Bool} {fuel : ℕ} (data : List ℕ) {out : Bytes}
    {s : ReaderState XmlReader} (h : Holds inPlace data.length out s)
    (hfuel : s.is.rest.length < fuel) :
    DecodesTo inPlace (Internal.base64DecodeStream 0x3c s.is.rest data out)
      (base64Decode inPlace fuel data s) := by
  induction fuel generalizing s data out with
  | zero => exact absurd hfuel (Nat.not_lt_zero _)
  | succ fuel ih =>
    cases hrest : s.is.rest with
    | nil =>
      refine ⟨s, ?_, hrest, h.mono (Nat.zero_le _)⟩
      simp [base64Decode, ReadStream.eof, hrest, Internal.base64DecodeStream]
    | cons c rest =>
      by_cases hterm : c = 0x3c
      · subst hterm
        refine ⟨s, ?_, hrest, h.mono (Nat.zero_le _)⟩
        simp [base64Decode, ReadStream.eof, ReadStream.peek, hrest, Internal.base64DecodeStream]
      · have htake := h.take hrest
        let s₁ : ReaderState XmlReader := { s with is := s.is.advance 1 }
        have hrest₁ : s₁.is.rest = rest := by simp [s₁, hrest]
        rw [hrest, List.length_cons] at hfuel
        rw [Internal.base64DecodeStream, if_neg hterm]
        by_cases hignore : Internal.base64Value c = Internal.base64Ignore
        · have hrun : base64Decode inPlace (fuel + 1) data s = base64Decode inPlace fuel data s₁ := by
            simp [base64Decode, ReadStream.eof, ReadStream.peek, hrest, hterm, hignore, s₁]
          rw [if_pos hignore, hrun, ← hrest₁]
          exact ih _ (htake.mono (Nat.le_succ _)) (by rw [hrest₁]; omega)
        · by_cases hpad : Internal.base64Value c = Internal.base64Pad
          · have hc : c = 0x3d := Internal.base64Value_eq_pad.mp hpad
            subst hc
            rw [if_neg hignore, if_pos hpad]
            exact base64Decode_pad hrest h
          · obtain ⟨s₂, hput, hrest₂, hholds⟩ := osPutBytes_eq
              (Internal.base64Sextet (Internal.base64Value c) data).2 htake
              ((Nat.le_add_left _ _).trans (Internal.base64Sextet_le _ data))
            have hrun : base64Decode inPlace (fuel + 1) data s = base64Decode inPlace fuel
                (Internal.base64Sextet (Internal.base64Value c) data).1 s₂ := by
              simp [base64Decode, ReadStream.eof, ReadStream.peek, hrest, hterm, hignore, hpad, hput]
            have hroom := Internal.base64Sextet_le (Internal.base64Value c) data
            have hrest₂' : s₂.is.rest = rest := hrest₂.trans hrest₁
            rw [if_neg hignore, if_neg hpad, hrun, ← hrest₂']
            exact ih _ (hholds.mono (by omega)) (by rw [hrest₂']; omega)

/-- The reader decodes what was encoded, up to the tag behind it. -/
theorem base64Decode_base64Encode {inPlace : Bool} {b rest : Bytes} {s : ReaderState XmlReader}
    (h : Holds inPlace 0 [] s) (hrest : s.is.rest = Internal.base64Encode b ++ 0x3c :: rest) :
    ∃ s', base64Decode inPlace (s.is.rest.length + 1) [] s = .ok true s' ∧
      s'.is.rest = 0x3c :: rest ∧ Holds inPlace 0 b s' := by
  have hrun := base64Decode_eq [] h (Nat.lt_succ_self _)
  rw [hrest, Internal.base64DecodeStream_base64Encode] at hrun
  rw [hrest]
  exact hrun

end AnyRpc.XmlReader
