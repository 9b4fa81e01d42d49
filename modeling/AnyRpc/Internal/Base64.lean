import AnyRpc.Foundation.Text

/-! # Base64

The encoder with its line breaks, and the decoder on memory that converts a string in place. The
bytes of a quantum are promoted to `int` before they are shifted, so the arithmetic is that of
natural numbers, truncated to a byte when it is stored. -/

namespace AnyRpc.Internal

/-- `base64Chars`. -/
def base64Chars : Bytes :=
  ascii "ABCDEFGHIJKLMNOPQRSTUVWXYZabcdefghijklmnopqrstuvwxyz0123456789+/"

def base64Pad : ℕ := 64
def base64Ignore : ℕ := 65

/-- `base64Decode`, the table. -/
def base64DecodeTable : List ℕ := [
  65,65,65,65, 65,65,65,65, 65,65,65,65, 65,65,65,65,
  65,65,65,65, 65,65,65,65, 65,65,65,65, 65,65,65,65,
  65,65,65,65, 65,65,65,65, 65,65,65,62, 65,65,65,63,
  52,53,54,55, 56,57,58,59, 60,61,65,65, 65,64,65,65,
  65, 0, 1, 2,  3, 4, 5, 6,  7, 8, 9,10, 11,12,13,14,
  15,16,17,18, 19,20,21,22, 23,24,25,65, 65,65,65,65,
  65,26,27,28, 29,30,31,32, 33,34,35,36, 37,38,39,40,
  41,42,43,44, 45,46,47,48, 49,50,51,65, 65,65,65,65] ++ List.replicate 128 65

/-- The table's entry for a byte. -/
def base64Value (c : UInt8) : ℕ := base64DecodeTable.getD c.toNat base64Ignore

/-- The character of a sextet. -/
def base64Char (s : ℕ) : UInt8 := base64Chars.getD s 0

def maxLineLength : ℕ := 64
def maxQuadLength : ℕ := maxLineLength / 4

/-! ## Encoding -/

/-- `Base64Encode` from the point where `quad` quanta of the current line are written: a full line
is ended when data remains. -/
def base64EncodeFrom (quad : ℕ) : Bytes → Bytes
  | data0 :: data1 :: data2 :: rest =>
    [base64Char (data0.toNat >>> 2),
      base64Char (((data0.toNat &&& 0x03) <<< 4) + (data1.toNat >>> 4)),
      base64Char (((data1.toNat &&& 0x0f) <<< 2) + (data2.toNat >>> 6)),
      base64Char (data2.toNat &&& 0x3f)] ++
      if quad + 1 = maxQuadLength then
        (if rest = [] then [] else [0x0a]) ++ base64EncodeFrom 0 rest
      else base64EncodeFrom (quad + 1) rest
  | [data0, data1] =>
    [base64Char (data0.toNat >>> 2),
      base64Char (((data0.toNat &&& 0x03) <<< 4) + (data1.toNat >>> 4)),
      base64Char (((data1.toNat &&& 0x0f) <<< 2) + (9 >>> 6)), 0x3d]
  | [data0] =>
    [base64Char (data0.toNat >>> 2), base64Char (((data0.toNat &&& 0x03) <<< 4) + (0 >>> 4)),
      0x3d, 0x3d]
  | [] => []

/-- `Base64Encode`. -/
def base64Encode (encode : Bytes) : Bytes := base64EncodeFrom 0 encode

/-! ## Decoding -/

/-- The end of `Base64Decode`: all the data must be used. -/
def base64Finish (src out : Bytes) : Bytes := if src = [] then out else []

/-- What `Base64Decode` does at a pad character, with the sextets of the current quantum: a second
pad may have to follow. -/
def base64DecodePad (src out : Bytes) : List ℕ → Bytes
  | [data0, data1] =>
    match src with
    | [] => base64Finish [] (out ++ [UInt8.ofNat ((data0 <<< 2) + (data1 >>> 4))])
    | c :: src =>
      if base64Value c = base64Pad then
        base64Finish src (out ++ [UInt8.ofNat ((data0 <<< 2) + (data1 >>> 4))])
      else []
  | [data0, data1, data2] =>
    base64Finish src (out ++ [UInt8.ofNat ((data0 <<< 2) + (data1 >>> 4)),
      UInt8.ofNat (((data1 &&& 0x0f) <<< 4) + (data2 >>> 2))])
  | _ => []

/-- What a sextet does to the current quantum: the sextets that are kept and the bytes that are
decoded. -/
def base64Sextet (d : ℕ) : List ℕ → List ℕ × Bytes
  | [data0, data1, data2] =>
    ([], [UInt8.ofNat ((data0 <<< 2) + (data1 >>> 4)),
      UInt8.ofNat (((data1 &&& 0x0f) <<< 4) + (data2 >>> 2)),
      UInt8.ofNat (((data2 &&& 0x03) <<< 6) + d)])
  | data => (data ++ [d], [])

/-- The loop of `Base64Decode` on memory, with the sextets of the current quantum and the bytes
already decoded. Writing never passes reading, so the output is kept apart from the input. -/
def base64DecodeLoop : Bytes → List ℕ → Bytes → Bytes
  | [], _, out => out
  | c :: src, data, out =>
    let d := base64Value c
    if d = base64Ignore then base64DecodeLoop src data out
    else if d = base64Pad then base64DecodePad src out data
    else base64DecodeLoop src (base64Sextet d data).1 (out ++ (base64Sextet d data).2)

/-- `Base64Decode` on memory: the decoded bytes, of which there are none on a failure. -/
def base64Decode (src : Bytes) : Bytes := base64DecodeLoop src [] []

/-! ## Decoding what was encoded -/

/-- A sextet's character stands for the sextet. -/
theorem base64Value_base64Char {s : ℕ} (hs : s < 64) : base64Value (base64Char s) = s := by
  revert s
  decide +kernel

section Quantum

variable (a b c : UInt8)

theorem sextet₀_lt : a.toNat >>> 2 < 64 := by
  have := a.toNat_lt
  rw [Nat.shiftRight_eq_div_pow]
  omega

theorem sextet₁_lt : ((a.toNat &&& 0x03) <<< 4) + (b.toNat >>> 4) < 64 := by
  have := b.toNat_lt
  rw [show (0x03 : ℕ) = 2 ^ 2 - 1 from rfl, Nat.and_two_pow_sub_one_eq_mod,
    Nat.shiftLeft_eq, Nat.shiftRight_eq_div_pow]
  omega

theorem sextet₂_lt : ((b.toNat &&& 0x0f) <<< 2) + (c.toNat >>> 6) < 64 := by
  have := c.toNat_lt
  rw [show (0x0f : ℕ) = 2 ^ 4 - 1 from rfl, Nat.and_two_pow_sub_one_eq_mod,
    Nat.shiftLeft_eq, Nat.shiftRight_eq_div_pow]
  omega

theorem sextet₃_lt : c.toNat &&& 0x3f < 64 := by
  rw [show (0x3f : ℕ) = 2 ^ 6 - 1 from rfl, Nat.and_two_pow_sub_one_eq_mod]
  omega

/-- The first byte of a quantum from its first two sextets. -/
theorem quantum₀ : UInt8.ofNat (((a.toNat >>> 2) <<< 2) +
    ((((a.toNat &&& 0x03) <<< 4) + (b.toNat >>> 4)) >>> 4)) = a := by
  have := a.toNat_lt
  have := b.toNat_lt
  apply UInt8.toNat_inj.mp
  simp only [show (0x03 : ℕ) = 2 ^ 2 - 1 from rfl, Nat.and_two_pow_sub_one_eq_mod,
    Nat.shiftLeft_eq, Nat.shiftRight_eq_div_pow, UInt8.toNat_ofNat']
  omega

/-- The second byte of a quantum from its middle sextets. -/
theorem quantum₁ : UInt8.ofNat ((((((a.toNat &&& 0x03) <<< 4) + (b.toNat >>> 4)) &&& 0x0f) <<< 4) +
    ((((b.toNat &&& 0x0f) <<< 2) + (c.toNat >>> 6)) >>> 2)) = b := by
  have := b.toNat_lt
  have := c.toNat_lt
  apply UInt8.toNat_inj.mp
  simp only [show (0x03 : ℕ) = 2 ^ 2 - 1 from rfl, show (0x0f : ℕ) = 2 ^ 4 - 1 from rfl,
    Nat.and_two_pow_sub_one_eq_mod, Nat.shiftLeft_eq, Nat.shiftRight_eq_div_pow,
    UInt8.toNat_ofNat']
  omega

/-- The third byte of a quantum from its last two sextets. -/
theorem quantum₂ : UInt8.ofNat ((((((b.toNat &&& 0x0f) <<< 2) + (c.toNat >>> 6)) &&& 0x03) <<< 6) +
    (c.toNat &&& 0x3f)) = c := by
  have := c.toNat_lt
  apply UInt8.toNat_inj.mp
  simp only [show (0x03 : ℕ) = 2 ^ 2 - 1 from rfl, show (0x0f : ℕ) = 2 ^ 4 - 1 from rfl,
    show (0x3f : ℕ) = 2 ^ 6 - 1 from rfl, Nat.and_two_pow_sub_one_eq_mod, Nat.shiftLeft_eq,
    Nat.shiftRight_eq_div_pow, UInt8.toNat_ofNat']
  omega

end Quantum

/-- A sextet's character goes to the current quantum. -/
theorem base64DecodeLoop_char {s : ℕ} (hs : s < 64) (src : Bytes) (data : List ℕ) (out : Bytes) :
    base64DecodeLoop (base64Char s :: src) data out =
      base64DecodeLoop src (base64Sextet s data).1 (out ++ (base64Sextet s data).2) := by
  rw [base64DecodeLoop, base64Value_base64Char hs, if_neg (by simp only [base64Ignore]; omega),
    if_neg (by simp only [base64Pad]; omega)]

/-- A line break is ignored. -/
theorem base64DecodeLoop_newline (src : Bytes) (data : List ℕ) (out : Bytes) :
    base64DecodeLoop (0x0a :: src) data out = base64DecodeLoop src data out := by
  rw [base64DecodeLoop, if_pos (by decide)]

/-- A pad character ends the data. -/
theorem base64DecodeLoop_pad (src : Bytes) (data : List ℕ) (out : Bytes) :
    base64DecodeLoop (0x3d :: src) data out = base64DecodePad src out data := by
  rw [base64DecodeLoop, if_neg (by decide), if_pos (by decide)]

/-- What a decoder `f` has to do to return, as `finish`, what was encoded: take the character of a
sextet to the current quantum, ignore a line break, and end at the pads or the end of the text. -/
structure Decodes {α : Type} (f : Bytes → List ℕ → Bytes → α) (finish : Bytes → α) : Prop where
  char : ∀ d < 64, ∀ (src : Bytes) (data : List ℕ) (out : Bytes),
    f (base64Char d :: src) data out = f src (base64Sextet d data).1 (out ++ (base64Sextet d data).2)
  newline : ∀ (src : Bytes) (data : List ℕ) (out : Bytes), f (0x0a :: src) data out = f src data out
  pad : ∀ (data0 data1 data2 : ℕ) (out : Bytes), f [0x3d] [data0, data1, data2] out =
    finish (out ++ [UInt8.ofNat ((data0 <<< 2) + (data1 >>> 4)),
      UInt8.ofNat (((data1 &&& 0x0f) <<< 4) + (data2 >>> 2))])
  pads : ∀ (data0 data1 : ℕ) (out : Bytes), f [0x3d, 0x3d] [data0, data1] out =
    finish (out ++ [UInt8.ofNat ((data0 <<< 2) + (data1 >>> 4))])
  done : ∀ out : Bytes, f [] [] out = finish out

/-- Decoding an encoding appends the encoded bytes, wherever the current line stands. -/
theorem Decodes.encodeFrom {α : Type} {f : Bytes → List ℕ → Bytes → α} {finish : Bytes → α}
    (h : Decodes f finish) (quad : ℕ) (b out : Bytes) :
    f (base64EncodeFrom quad b) [] out = finish (out ++ b) := by
  induction quad, b using base64EncodeFrom.induct generalizing out with
  | case1 quad a b c rest ih₀ ih₁ =>
    simp only [base64EncodeFrom, List.cons_append, List.nil_append, h.char _ (sextet₀_lt a),
      h.char _ (sextet₁_lt a b), h.char _ (sextet₂_lt b c), h.char _ (sextet₃_lt c),
      base64Sextet, List.append_nil, quantum₀, quantum₁, quantum₂]
    by_cases hquad : quad + 1 = maxQuadLength
    · rw [if_pos hquad]
      by_cases hrest : rest = []
      · rw [if_pos hrest, List.nil_append, ih₀]
        simp
      · rw [if_neg hrest, List.singleton_append, h.newline, ih₀]
        simp
    · rw [if_neg hquad, ih₁]
      simp
  | case2 quad a b =>
    -- The third byte of the incomplete quantum is 9, of which no bit is used.
    have h9 : ((b.toNat &&& 0x0f) <<< 2) + (9 >>> 6) =
        ((b.toNat &&& 0x0f) <<< 2) + ((9 : UInt8).toNat >>> 6) := rfl
    simp only [base64EncodeFrom, h9, h.char _ (sextet₀_lt a), h.char _ (sextet₁_lt a b),
      h.char _ (sextet₂_lt b 9), h.pad, base64Sextet, List.nil_append, List.append_nil,
      List.cons_append, quantum₀, quantum₁]
  | case3 quad a =>
    have h0 : ((a.toNat &&& 0x03) <<< 4) + (0 >>> 4) =
        ((a.toNat &&& 0x03) <<< 4) + ((0 : UInt8).toNat >>> 4) := rfl
    simp only [base64EncodeFrom, h0, h.char _ (sextet₀_lt a), h.char _ (sextet₁_lt a 0), h.pads,
      base64Sextet, List.nil_append, List.append_nil, List.cons_append, quantum₀]
  | case4 => simp [base64EncodeFrom, h.done]

theorem decodes_base64DecodeLoop : Decodes base64DecodeLoop id where
  char _ hd := base64DecodeLoop_char hd
  newline := base64DecodeLoop_newline
  pad data0 data1 data2 out := by
    rw [base64DecodeLoop_pad, base64DecodePad, base64Finish, if_pos rfl]
    rfl
  pads data0 data1 out := by
    rw [base64DecodeLoop_pad, base64DecodePad, if_pos (by decide), base64Finish, if_pos rfl]
    rfl
  done _ := rfl

/-- Decoding an encoding appends the encoded bytes. -/
theorem base64DecodeLoop_encodeFrom (quad : ℕ) (b out : Bytes) :
    base64DecodeLoop (base64EncodeFrom quad b) [] out = out ++ b :=
  decodes_base64DecodeLoop.encodeFrom quad b out

/-- Decoding returns what was encoded. -/
theorem base64Decode_base64Encode (b : Bytes) : base64Decode (base64Encode b) = b :=
  base64DecodeLoop_encodeFrom 0 b []

end AnyRpc.Internal
