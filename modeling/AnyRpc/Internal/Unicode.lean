import AnyRpc.Foundation.Exception
import AnyRpc.Foundation.Utf8

/-! # Wide strings

The conversions between wide strings and UTF-8, on a platform whose `wchar_t` is an `int` of 32 bits.
The bytes of a sequence are converted to `wchar_t` with their sign, of which the masks leave
nothing. -/

namespace AnyRpc.Internal

open Library

/-- A `wchar_t`. -/
abbrev WChar := BitVec 32

/-- What `ConvertToUtf8` does with one character. -/
def putWide (wc : WChar) : Except Fault Bytes :=
  if wc.toInt ≤ 0x7F then .ok [UInt8.ofNat wc.toNat]
  else if wc.toInt ≤ 0x7FF then
    .ok [UInt8.ofNat (0xC0 ||| wc.toNat >>> 6 &&& 0xFF), UInt8.ofNat (0x80 ||| wc.toNat &&& 0x3F)]
  else if wc.toInt ≤ 0xFFFF then
    .ok [UInt8.ofNat (0xE0 ||| wc.toNat >>> 12 &&& 0xFF),
      UInt8.ofNat (0x80 ||| wc.toNat >>> 6 &&& 0x3F), UInt8.ofNat (0x80 ||| wc.toNat &&& 0x3F)]
  else if wc.toInt ≤ 0x1FFFF then
    .ok [UInt8.ofNat (0xF0 ||| wc.toNat >>> 18 &&& 0xFF),
      UInt8.ofNat (0x80 ||| wc.toNat >>> 12 &&& 0x3F),
      UInt8.ofNat (0x80 ||| wc.toNat >>> 6 &&& 0x3F), UInt8.ofNat (0x80 ||| wc.toNat &&& 0x3F)]
  else
    .error (.exception { code := ErrorCode.unicodeValue, message := ascii "Invalid codepoint" })

/-- `ConvertToUtf8(ws, length)`. -/
def convertToUtf8 : List WChar → Except Fault Bytes
  | [] => .ok []
  | wc :: ws => do
    let bytes ← putWide wc
    let s ← convertToUtf8 ws
    return bytes ++ s

/-- `anyrpc_throw(AnyRpcErrorUtf8Sequence, "Invalid utf8 sequence")`. -/
def invalidSequence : Fault :=
  .exception { code := ErrorCode.utf8Sequence, message := ascii "Invalid utf8 sequence" }

/-- A byte that continues a sequence. -/
def isContinuation (c : UInt8) : Bool := c &&& 0xC0 = 0x80

/-- `ConvertFromUtf8(s, length)`. -/
def convertFromUtf8 : Bytes → Except Fault (List WChar)
  | [] => .ok []
  | c :: s =>
    if c < 0x80 then return BitVec.ofNat 32 c.toNat :: (← convertFromUtf8 s)
    else if c < 0xC0 ∨ 0xF8 ≤ c then .error invalidSequence
    else if c < 0xE0 then
      match s with
      | c2 :: s =>
        if !isContinuation c2 then .error invalidSequence
        else
          return BitVec.ofNat 32 (((c &&& 0x1F).toNat <<< 6) + (c2 &&& 0x3F).toNat) ::
            (← convertFromUtf8 s)
      | _ => .error invalidSequence
    else if c < 0xF0 then
      match s with
      | c2 :: c3 :: s =>
        if !isContinuation c2 || !isContinuation c3 then .error invalidSequence
        else
          return BitVec.ofNat 32 (((c &&& 0x0F).toNat <<< 12) + ((c2 &&& 0x3F).toNat <<< 6) +
            (c3 &&& 0x3F).toNat) :: (← convertFromUtf8 s)
      | _ => .error invalidSequence
    else
      match s with
      | c2 :: c3 :: c4 :: s =>
        if !isContinuation c2 || !isContinuation c3 || !isContinuation c4 then
          .error invalidSequence
        else
          return BitVec.ofNat 32 (((c &&& 0x07).toNat <<< 18) + ((c2 &&& 0x3F).toNat <<< 12) +
            ((c3 &&& 0x3F).toNat <<< 6) + (c4 &&& 0x3F).toNat) :: (← convertFromUtf8 s)
      | _ => .error invalidSequence

/-- The wide string of some characters. -/
def wide (cs : List Char) : List WChar := cs.map fun c => BitVec.ofNat 32 c.toNat

/-! ## One character -/

theorem toInt_ofNat {v : ℕ} (h : v < 0x200000) : (BitVec.ofNat 32 v).toInt = v := by
  have htoNat : (BitVec.ofNat 32 v).toNat = v := Nat.mod_eq_of_lt (by omega)
  rw [BitVec.toInt_eq_toNat_of_lt (by omega), htoNat]

/-- A character within the limit of the encoder is put as UTF-8. -/
theorem putWide_of_le {v : ℕ} (h : v ≤ 0x1FFFF) :
    putWide (BitVec.ofNat 32 v) = .ok (Utf8.encode v) := by
  have htoNat : (BitVec.ofNat 32 v).toNat = v := Nat.mod_eq_of_lt (by omega)
  rw [← encodeUtf8_eq (by omega)]
  simp only [putWide, toInt_ofNat (show v < 0x200000 by omega), htoNat, encodeUtf8]
  split_ifs <;> first | rfl | omega

/-- Beyond the limit it is refused. -/
theorem putWide_of_lt {v : ℕ} (h : 0x1FFFF < v) (hv : v < 0x200000) :
    ∃ f, putWide (BitVec.ofNat 32 v) = .error f := by
  simp only [putWide, toInt_ofNat hv]
  split_ifs <;> first | omega | exact ⟨_, rfl⟩

theorem isContinuation_iff {c : UInt8} : isContinuation c = true ↔ c.toNat / 64 = 2 := by
  rw [isContinuation, decide_eq_true_iff, and_mask_iff]

/-- The decoder takes the several bytes of a number. -/
theorem convertFromUtf8_multibyte {v : ℕ} {p : Bytes} (h : Utf8.Multibyte v p) (s : Bytes) :
    convertFromUtf8 (p ++ s) = (convertFromUtf8 s).map (BitVec.ofNat 32 v :: ·) := by
  have hmask (c : UInt8) := toNat_and c 0x3F 6 rfl
  cases h with
  | @two c c2 h hv hc hc2 =>
    have hascii : ¬ c < 0x80 := by simp [UInt8.lt_iff_toNat_lt, hc]; omega
    have hfirst : ¬ (c < 0xC0 ∨ 0xF8 ≤ c) := by
      simp [UInt8.lt_iff_toNat_lt, UInt8.le_iff_toNat_le, hc]
      omega
    have htwo : c < 0xE0 := by simp [UInt8.lt_iff_toNat_lt, hc]; omega
    have hcont2 : isContinuation c2 = true := isContinuation_iff.mpr (by omega)
    have hvalue : (c &&& 0x1F).toNat <<< 6 + (c2 &&& 0x3F).toNat = v := by
      rw [toNat_and c 0x1F 5 rfl, hmask, Nat.shiftLeft_eq]
      omega
    simp only [List.cons_append, List.nil_append, convertFromUtf8, hascii, hfirst, htwo, hcont2,
      hvalue, if_true, if_false, Bool.not_true, Bool.false_eq_true]
    rfl
  | @three c c2 c3 h hv hc hc2 hc3 =>
    have hascii : ¬ c < 0x80 := by simp [UInt8.lt_iff_toNat_lt, hc]; omega
    have hfirst : ¬ (c < 0xC0 ∨ 0xF8 ≤ c) := by
      simp [UInt8.lt_iff_toNat_lt, UInt8.le_iff_toNat_le, hc]
      omega
    have htwo : ¬ c < 0xE0 := by simp [UInt8.lt_iff_toNat_lt, hc]
    have hthree : c < 0xF0 := by simp [UInt8.lt_iff_toNat_lt, hc]; omega
    have hcont2 : isContinuation c2 = true := isContinuation_iff.mpr (by omega)
    have hcont3 : isContinuation c3 = true := isContinuation_iff.mpr (by omega)
    have hvalue : (c &&& 0x0F).toNat <<< 12 + (c2 &&& 0x3F).toNat <<< 6 + (c3 &&& 0x3F).toNat = v := by
      rw [toNat_and c 0x0F 4 rfl, hmask, hmask, Nat.shiftLeft_eq, Nat.shiftLeft_eq]
      omega
    simp only [List.cons_append, List.nil_append, convertFromUtf8, hascii, hfirst, htwo, hthree,
      hcont2, hcont3, hvalue, if_true, if_false, Bool.not_true, Bool.or_self, Bool.false_eq_true]
    rfl
  | @four c c2 c3 c4 h hv hc hc2 hc3 hc4 =>
    have hascii : ¬ c < 0x80 := by simp [UInt8.lt_iff_toNat_lt, hc]; omega
    have hfirst : ¬ (c < 0xC0 ∨ 0xF8 ≤ c) := by
      simp [UInt8.lt_iff_toNat_lt, UInt8.le_iff_toNat_le, hc]
      omega
    have htwo : ¬ c < 0xE0 := by simp [UInt8.lt_iff_toNat_lt, hc]; omega
    have hthree : ¬ c < 0xF0 := by simp [UInt8.lt_iff_toNat_lt, hc]
    have hcont2 : isContinuation c2 = true := isContinuation_iff.mpr (by omega)
    have hcont3 : isContinuation c3 = true := isContinuation_iff.mpr (by omega)
    have hcont4 : isContinuation c4 = true := isContinuation_iff.mpr (by omega)
    have hvalue : (c &&& 0x07).toNat <<< 18 + (c2 &&& 0x3F).toNat <<< 12 +
        (c3 &&& 0x3F).toNat <<< 6 + (c4 &&& 0x3F).toNat = v := by
      rw [toNat_and c 0x07 3 rfl, hmask, hmask, hmask, Nat.shiftLeft_eq, Nat.shiftLeft_eq,
        Nat.shiftLeft_eq]
      omega
    simp only [List.cons_append, List.nil_append, convertFromUtf8, hascii, hfirst, htwo, hthree,
      hcont2, hcont3, hcont4, hvalue, if_false, Bool.not_true, Bool.or_self, Bool.false_eq_true]
    rfl

/-- The decoder takes the encoding of a number. -/
theorem convertFromUtf8_encode {v : ℕ} (h : v < 0x200000) (s : Bytes) :
    convertFromUtf8 (Utf8.encode v ++ s) = (convertFromUtf8 s).map (BitVec.ofNat 32 v :: ·) := by
  by_cases hascii : v < 0x80
  · have hbyte : (UInt8.ofNat v).toNat = v := by
      rw [UInt8.toNat_ofNat']
      omega
    have hlt : UInt8.ofNat v < 0x80 := by
      rw [UInt8.lt_iff_toNat_lt, hbyte]
      exact hascii
    rw [Utf8.encode, if_pos (by omega), List.singleton_append, convertFromUtf8.eq_def]
    simp only [hlt, if_true, hbyte]
    rfl
  · exact convertFromUtf8_multibyte (Utf8.multibyte_encode (by omega) h) s

/-! ## Texts -/

theorem toNat_lt (c : Char) : c.toNat < 0x110000 := by
  have hvalid : c.toNat.isValidChar := c.valid
  rw [Nat.isValidChar] at hvalid
  omega

/-- The decoder returns the characters of a text. -/
theorem convertFromUtf8_chars (cs : List Char) :
    convertFromUtf8 (cs.flatMap String.utf8EncodeChar) = .ok (wide cs) := by
  induction cs with
  | nil => rfl
  | cons c cs ih =>
    have hlt := toNat_lt c
    rw [List.flatMap_cons, ← Utf8.encode_toNat, convertFromUtf8_encode (by omega), ih]
    rfl

/-- The encoder returns the text of characters that are within its limit. -/
theorem convertToUtf8_of_le {cs : List Char} (h : ∀ c ∈ cs, c.toNat ≤ 0x1FFFF) :
    convertToUtf8 (wide cs) = .ok (cs.flatMap String.utf8EncodeChar) := by
  induction cs with
  | nil => rfl
  | cons c cs ih =>
    have hput : putWide (BitVec.ofNat 32 c.toNat) = .ok (Utf8.encode c.toNat) :=
      putWide_of_le (h c List.mem_cons_self)
    have hrest := ih fun c' hc' => h c' (List.mem_cons_of_mem c hc')
    rw [wide, List.map_cons, convertToUtf8, hput]
    rw [wide] at hrest
    rw [hrest, List.flatMap_cons, ← Utf8.encode_toNat]
    rfl

/-- One character beyond the limit is enough for it to throw. -/
theorem convertToUtf8_of_lt {cs : List Char} (h : ∃ c ∈ cs, 0x1FFFF < c.toNat) :
    ∃ f, convertToUtf8 (wide cs) = .error f := by
  induction cs with
  | nil =>
    obtain ⟨c, hc, -⟩ := h
    exact absurd hc List.not_mem_nil
  | cons c cs ih =>
    rw [wide, List.map_cons, convertToUtf8]
    by_cases hc : 0x1FFFF < c.toNat
    · have hlt := toNat_lt c
      obtain ⟨f, hf⟩ := putWide_of_lt hc (by omega)
      exact ⟨f, by rw [hf]; rfl⟩
    · rw [putWide_of_le (Nat.not_lt.mp hc)]
      obtain ⟨c', hc', hlt⟩ := h
      rcases List.mem_cons.mp hc' with rfl | hmem
      · exact absurd hlt hc
      · obtain ⟨f, hf⟩ := ih ⟨c', hmem, hlt⟩
        rw [wide] at hf
        exact ⟨f, by rw [hf]; rfl⟩

/-- The characters that the encoder accepts. -/
theorem convertToUtf8_iff (cs : List Char) :
    convertToUtf8 (wide cs) = .ok (cs.flatMap String.utf8EncodeChar) ↔
      ∀ c ∈ cs, c.toNat ≤ 0x1FFFF := by
  constructor
  · intro h c hc
    by_contra hlt
    obtain ⟨f, hf⟩ := convertToUtf8_of_lt ⟨c, hc, Nat.not_le.mp hlt⟩
    rw [hf] at h
    cases h
  · exact convertToUtf8_of_le

/-- A list of code points goes to UTF-8 and back. -/
def WideRoundTrips (ws : List WChar) : Prop :=
  ∃ s, convertToUtf8 ws = .ok s ∧ convertFromUtf8 s = .ok ws

/-- A text goes to wide characters and back. -/
def TextRoundTrips (s : Bytes) : Prop := (convertFromUtf8 s).bind convertToUtf8 = .ok s

theorem wideRoundTrips_iff (cs : List Char) :
    WideRoundTrips (wide cs) ↔ ∀ c ∈ cs, c.toNat ≤ 0x1FFFF := by
  constructor
  · rintro ⟨s, hto, -⟩ c hc
    by_contra hlt
    obtain ⟨f, hf⟩ := convertToUtf8_of_lt ⟨c, hc, Nat.not_le.mp hlt⟩
    rw [hf] at hto
    cases hto
  · intro h
    exact ⟨_, convertToUtf8_of_le h, convertFromUtf8_chars cs⟩

theorem textRoundTrips_iff (cs : List Char) :
    TextRoundTrips (cs.flatMap String.utf8EncodeChar) ↔ ∀ c ∈ cs, c.toNat ≤ 0x1FFFF := by
  rw [TextRoundTrips, convertFromUtf8_chars]
  exact convertToUtf8_iff cs

/-- Both ways work exactly as long as no character is beyond U+1FFFF. -/
theorem conversions_roundTrip_iff (cs : List Char) {s : Bytes} (hs : Utf8.WellFormed s) :
    (WideRoundTrips (wide cs) ↔ ∀ c ∈ cs, c.toNat ≤ 0x1FFFF) ∧
      (TextRoundTrips s ↔
        ∀ cs : List Char, s = cs.flatMap String.utf8EncodeChar → ∀ c ∈ cs, c.toNat ≤ 0x1FFFF) := by
  refine ⟨wideRoundTrips_iff cs, ?_⟩
  constructor
  · rintro h cs rfl
    exact (textRoundTrips_iff cs).mp h
  · intro h
    obtain ⟨cs, rfl⟩ := Utf8.wellFormed_iff.mp hs
    exact (textRoundTrips_iff cs).mpr (h cs rfl)

/-- Characters of one, two, three and four bytes. -/
def anyLengths : List Char :=
  [Char.ofNat 0x41, Char.ofNat 0xE9, Char.ofNat 0xFFFD, Char.ofNat 0x1F600]

/-- Characters of every length go both ways. -/
theorem conversions_roundTrip_iff_anyLengths : WideRoundTrips (wide anyLengths) ∧
    TextRoundTrips (anyLengths.flatMap String.utf8EncodeChar) := by
  have hall : (anyLengths.all fun c => decide (c.toNat ≤ 0x1FFFF)) = true := by decide
  have hle : ∀ c ∈ anyLengths, c.toNat ≤ 0x1FFFF := by
    intro c hc
    exact of_decide_eq_true (List.all_eq_true.mp hall c hc)
  obtain ⟨hwide, htext⟩ := conversions_roundTrip_iff anyLengths
    (Utf8.wellFormed_iff.mpr ⟨anyLengths, rfl⟩)
  refine ⟨hwide.mpr hle, htext.mpr fun cs hcs c hc => ?_⟩
  -- The text has no other characters, since it is decoded to the same wide characters.
  have hback := congrArg convertFromUtf8 hcs
  rw [convertFromUtf8_chars, convertFromUtf8_chars] at hback
  have hmem : BitVec.ofNat 32 c.toNat ∈ wide cs := List.mem_map_of_mem hc
  rw [← Except.ok.inj hback] at hmem
  obtain ⟨c', hc', heq⟩ := List.mem_map.mp hmem
  have hvalue := congrArg BitVec.toNat heq
  have hlt := toNat_lt c
  have hlt' := toNat_lt c'
  have hbound := hle c' hc'
  simp only [BitVec.toNat_ofNat] at hvalue
  omega

/-- U+20000 is refused. -/
theorem not_conversions_roundTrip : ¬ WideRoundTrips (wide [Char.ofNat 0x20000]) ∧
    ∃ s, Utf8.WellFormed s ∧ ¬ TextRoundTrips s := by
  have hthrows : convertToUtf8 (wide [Char.ofNat 0x20000]) = .error (.exception
      { code := ErrorCode.unicodeValue, message := ascii "Invalid codepoint" }) := by decide +kernel
  constructor
  · rintro ⟨s, hs, -⟩
    rw [hthrows] at hs
    cases hs
  · refine ⟨[Char.ofNat 0x20000].flatMap String.utf8EncodeChar, Utf8.wellFormed_iff.mpr ⟨_, rfl⟩, ?_⟩
    intro h
    rw [TextRoundTrips, convertFromUtf8_chars] at h
    exact absurd (hthrows.symm.trans h) nofun

end AnyRpc.Internal
