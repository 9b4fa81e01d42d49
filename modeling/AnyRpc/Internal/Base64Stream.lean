import AnyRpc.Internal.Base64

/-! # Base64 on streams

The decoder that reads from a stream up to a terminator, and how far it agrees with the decoder on
memory: the XML reader uses the one and the JSON reader the other. -/

namespace AnyRpc.Internal

/-! ## Decoding from a stream -/

/-- What `Base64Decode` does at a pad character, with the sextets of the current quantum, what is left
of the stream and what is already put. `Get` and `Peek` give a null byte at the end. -/
def base64DecodeStreamPad (termChar : UInt8) (rest out : Bytes) : List ℕ → Bool × Bytes × Bytes
  | [data0, data1] =>
    -- The next character has to be a pad as well.
    if base64Value (rest.headD 0) ≠ base64Pad then (false, out, rest.drop 1)
    else ((rest.drop 1).headD 0 = termChar, out ++ [UInt8.ofNat ((data0 <<< 2) + (data1 >>> 4))],
      rest.drop 1)
  | [data0, data1, data2] =>
    (rest.headD 0 = termChar, out ++ [UInt8.ofNat ((data0 <<< 2) + (data1 >>> 4)),
      UInt8.ofNat (((data1 &&& 0x0f) <<< 4) + (data2 >>> 2))], rest)
  | _ => (false, out, rest)

/-- `Base64Decode(os, is, termChar)` on what is left of `is`, with the sextets of the current quantum
and what is already put to `os`: what it returns, what is put by then, and what is left. -/
def base64DecodeStream (termChar : UInt8) : Bytes → List ℕ → Bytes → Bool × Bytes × Bytes
  | [], _, out => (false, out, [])
  | c :: rest, data, out =>
    if c = termChar then (data = [], out, c :: rest)
    else
      let d := base64Value c
      if d = base64Ignore then base64DecodeStream termChar rest data out
      else if d = base64Pad then base64DecodeStreamPad termChar rest out data
      else base64DecodeStream termChar rest (base64Sextet d data).1 (out ++ (base64Sextet d data).2)

/-! ## Decoding what was encoded -/

/-- In front of a terminator the stream decoder decodes what was encoded. -/
theorem decodes_base64DecodeStream (rest : Bytes) :
    Decodes (fun text data out => base64DecodeStream 0x3c (text ++ 0x3c :: rest) data out)
      fun out => (true, out, 0x3c :: rest) where
  char d hd src data out := by
    have hvalue := base64Value_base64Char hd
    -- No sextet has the terminator for its character, of which the table says that it is ignored.
    have hterm : base64Char d ≠ 0x3c := by
      intro h
      have hignore : base64Value 0x3c = base64Ignore := by decide
      rw [h, hignore, base64Ignore] at hvalue
      omega
    rw [List.cons_append, base64DecodeStream, if_neg hterm, hvalue,
      if_neg (by simp only [base64Ignore]; omega), if_neg (by simp only [base64Pad]; omega)]
  newline src data out := by
    rw [List.cons_append, base64DecodeStream, if_neg (by decide)]
    exact if_pos (by decide)
  pad data0 data1 data2 out := by
    rw [List.cons_append, List.nil_append, base64DecodeStream, if_neg (by decide)]
    simp only
    rw [if_neg (by decide), if_pos (by decide), base64DecodeStreamPad]
    rfl
  pads data0 data1 out := by
    rw [List.cons_append, List.singleton_append, base64DecodeStream, if_neg (by decide)]
    simp only
    rw [if_neg (by decide), if_pos (by decide), base64DecodeStreamPad, List.headD_cons,
      if_neg (by decide)]
    rfl
  done out := by
    rw [List.nil_append, base64DecodeStream, if_pos rfl]
    rfl

theorem base64DecodeStream_base64Encode (b rest : Bytes) :
    base64DecodeStream 0x3c (base64Encode b ++ 0x3c :: rest) [] [] = (true, b, 0x3c :: rest) :=
  (decodes_base64DecodeStream rest).encodeFrom 0 b []

/-! ## Text without a pad -/

theorem base64Value_eq_pad {c : UInt8} : base64Value c = base64Pad ↔ c = 0x3d := by
  have hall : ∀ n < 256, base64Value (UInt8.ofNat n) = base64Pad ↔ UInt8.ofNat n = 0x3d := by
    decide +kernel
  have hc := hall c.toNat c.toNat_lt
  rwa [UInt8.ofNat_toNat] at hc

/-- What a character other than a pad does to the current quantum and the output. -/
def base64Step (data : List ℕ) (out : Bytes) (c : UInt8) : List ℕ × Bytes :=
  if base64Value c = base64Ignore then (data, out)
  else ((base64Sextet (base64Value c) data).1, out ++ (base64Sextet (base64Value c) data).2)

/-- What a text without a pad does to them. -/
def base64Feed (text : Bytes) (data : List ℕ) (out : Bytes) : List ℕ × Bytes :=
  text.foldl (fun s c => base64Step s.1 s.2 c) (data, out)

/-- The number of characters that stand for a sextet. -/
def sextetCount (text : Bytes) : ℕ :=
  text.countP fun c => base64Value c ≠ base64Ignore && base64Value c ≠ base64Pad

theorem base64DecodeLoop_append {text : Bytes} (hpad : (0x3d : UInt8) ∉ text) (rest : Bytes)
    (data : List ℕ) (out : Bytes) :
    base64DecodeLoop (text ++ rest) data out =
      base64DecodeLoop rest (base64Feed text data out).1 (base64Feed text data out).2 := by
  induction text generalizing data out with
  | nil => rfl
  | cons c text ih =>
    rw [List.mem_cons, not_or] at hpad
    have hfeed : base64Feed (c :: text) data out =
        base64Feed text (base64Step data out c).1 (base64Step data out c).2 := rfl
    rw [hfeed, ← ih hpad.2, List.cons_append, base64DecodeLoop, base64Step]
    by_cases hignore : base64Value c = base64Ignore
    · rw [if_pos hignore, if_pos hignore]
    · rw [if_neg hignore, if_neg hignore,
        if_neg fun h => hpad.1 (base64Value_eq_pad.mp h).symm]

theorem base64DecodeStream_append {termChar : UInt8} {text : Bytes} (hpad : (0x3d : UInt8) ∉ text)
    (hterm : termChar ∉ text) (rest : Bytes) (data : List ℕ) (out : Bytes) :
    base64DecodeStream termChar (text ++ rest) data out =
      base64DecodeStream termChar rest (base64Feed text data out).1 (base64Feed text data out).2 := by
  induction text generalizing data out with
  | nil => rfl
  | cons c text ih =>
    rw [List.mem_cons, not_or] at hpad hterm
    have hfeed : base64Feed (c :: text) data out =
        base64Feed text (base64Step data out c).1 (base64Step data out c).2 := rfl
    rw [hfeed, ← ih hpad.2 hterm.2, List.cons_append, base64DecodeStream, base64Step,
      if_neg (Ne.symm hterm.1)]
    by_cases hignore : base64Value c = base64Ignore
    · rw [if_pos hignore, if_pos hignore]
    · rw [if_neg hignore, if_neg hignore,
        if_neg fun h => hpad.1 (base64Value_eq_pad.mp h).symm]

/-- A sextet completes the quantum when there are three already. -/
theorem base64Sextet_length (d : ℕ) {data : List ℕ} (hdata : data.length < 4) :
    (base64Sextet d data).1.length = (data.length + 1) % 4 ∧
      (base64Sextet d data).2.length = 3 * ((data.length + 1) / 4) := by
  match data, hdata with
  | [], _ => simp [base64Sextet]
  | [_], _ => simp [base64Sextet]
  | [_, _], _ => simp [base64Sextet]
  | [_, _, _], _ => simp [base64Sextet]

/-- What is decoded from a quantum is shorter than the quantum. -/
theorem base64Sextet_le (d : ℕ) (data : List ℕ) :
    (base64Sextet d data).1.length + (base64Sextet d data).2.length ≤ data.length + 1 := by
  match data with
  | [] => simp [base64Sextet]
  | [_] => simp [base64Sextet]
  | [_, _] => simp [base64Sextet]
  | [_, _, _] => simp [base64Sextet]
  | _ :: _ :: _ :: _ :: _ => simp [base64Sextet]

/-- How many sextets a text leaves in the quantum, and how many bytes it adds. -/
theorem base64Feed_length {text : Bytes} (hpad : (0x3d : UInt8) ∉ text) (data : List ℕ)
    (hdata : data.length < 4) (out : Bytes) :
    (base64Feed text data out).1.length = (data.length + sextetCount text) % 4 ∧
      (base64Feed text data out).2.length =
        out.length + 3 * ((data.length + sextetCount text) / 4) := by
  induction text generalizing data out with
  | nil =>
    have hzero : sextetCount [] = 0 := rfl
    rw [hzero]
    refine ⟨?_, ?_⟩
    · show data.length = _
      omega
    · show out.length = _
      omega
  | cons c text ih =>
    rw [List.mem_cons, not_or] at hpad
    have hfeed : base64Feed (c :: text) data out =
        base64Feed text (base64Step data out c).1 (base64Step data out c).2 := rfl
    have hne : base64Value c ≠ base64Pad := fun h => hpad.1 (base64Value_eq_pad.mp h).symm
    rw [hfeed]
    by_cases hignore : base64Value c = base64Ignore
    · have hcount : sextetCount (c :: text) = sextetCount text := by
        rw [sextetCount, List.countP_cons_of_neg (by simp [hignore])]
        rfl
      rw [base64Step, if_pos hignore, hcount]
      exact ih hpad.2 data hdata out
    · have hcount : sextetCount (c :: text) = sextetCount text + 1 := by
        rw [sextetCount, List.countP_cons_of_pos (by simp [hignore, hne])]
        rfl
      obtain ⟨hlength, hout⟩ := base64Sextet_length (base64Value c) hdata
      obtain ⟨hlength', hout'⟩ := ih hpad.2 (base64Sextet (base64Value c) data).1
        (by omega) (out ++ (base64Sextet (base64Value c) data).2)
      rw [base64Step, if_neg hignore, hcount]
      rw [List.length_append, hout] at hout'
      refine ⟨?_, ?_⟩
      · rw [hlength', hlength]
        omega
      · rw [hout', hlength]
        omega

/-! ## Agreement -/

/-- The part of a text in front of the first pad. -/
def beforePad (s : Bytes) : Bytes := s.takeWhile (· ≠ 0x3d)

/-- Sextets are left over at the end of a text without a pad, behind a quantum at least. -/
def LeftOver (s : Bytes) : Prop := 0x3d ∉ s ∧ 4 ≤ sextetCount s ∧ sextetCount s % 4 ≠ 0

/-- A text ends with its only pad, where there should be two of them. -/
def LonePad (s : Bytes) : Prop := s = beforePad s ++ [0x3d] ∧ sextetCount (beforePad s) % 4 = 2

/-- What the decoder on memory returns and what the one on a stream returns: both of them accept with
the same bytes, which are some, or neither of them does. -/
def SameBytes (memory : Bytes) (stream : Bool × Bytes × Bytes) : Prop :=
  ∀ d ≠ [], memory = d ↔ ∃ rest, stream = (true, d, rest)

/-- The decoders on memory and on a stream agree on a text. -/
def DecodersAgree (s : Bytes) : Prop :=
  SameBytes (base64Decode s) (base64DecodeStream 0x3c (s ++ [0x3c]) [] [])

theorem sameBytes_refused (out rest : Bytes) : SameBytes [] (false, out, rest) := by
  intro d hd
  constructor
  · intro h
    exact absurd h.symm hd
  · rintro ⟨rest', h⟩
    exact Bool.noConfusion (congrArg Prod.fst h)

theorem sameBytes_accepted (out rest : Bytes) : SameBytes out (true, out, rest) := by
  intro d _
  constructor
  · rintro rfl
    exact ⟨rest, rfl⟩
  · rintro ⟨rest', h⟩
    exact congrArg (·.2.1) h

/-- One refuses what the other decodes. -/
theorem not_sameBytes {memory : Bytes} (h : memory ≠ []) (out rest : Bytes) :
    ¬ SameBytes memory (false, out, rest) := by
  intro hsame
  obtain ⟨rest', hrest⟩ := (hsame memory h).mp rfl
  exact Bool.noConfusion (congrArg Prod.fst hrest)

/-- Both of them look whether all of the text is used. -/
theorem sameBytes_finish {src : Bytes} (hterm : (0x3c : UInt8) ∉ src) (out rest : Bytes) :
    SameBytes (base64Finish src out) ((src ++ [0x3c]).headD 0 = 0x3c, out, rest) := by
  cases src with
  | nil => exact sameBytes_accepted out rest
  | cons c src =>
    have hne : c ≠ 0x3c := fun h => hterm (h ▸ List.mem_cons_self)
    have hhead : decide ((c :: src ++ [0x3c]).headD 0 = 0x3c) = false := decide_eq_false hne
    rw [hhead]
    exact sameBytes_refused out rest

theorem beforePad_append {text : Bytes} (hpad : (0x3d : UInt8) ∉ text) (rest : Bytes) :
    beforePad (text ++ 0x3d :: rest) = text := by
  rw [beforePad, List.takeWhile_append_of_pos, List.takeWhile_cons, if_neg (by simp), List.append_nil]
  intro c hc
  simpa using fun h : c = 0x3d => hpad (h ▸ hc)

/-- Without a pad, what counts is whether sextets are left over. -/
theorem decodersAgree_of_notMem {s : Bytes} (hpad : (0x3d : UInt8) ∉ s) (hterm : (0x3c : UInt8) ∉ s) :
    DecodersAgree s ↔ ¬ LeftOver s := by
  obtain ⟨hlength, hout⟩ := base64Feed_length hpad [] (by decide) []
  simp only [List.length_nil, Nat.zero_add] at hlength hout
  have hmemory : base64Decode s = (base64Feed s [] []).2 := by
    have happend := base64DecodeLoop_append hpad [] [] []
    rwa [List.append_nil] at happend
  have hstream : base64DecodeStream 0x3c (s ++ [0x3c]) [] [] =
      (decide ((base64Feed s [] []).1 = []), (base64Feed s [] []).2, [0x3c]) := by
    rw [base64DecodeStream_append hpad hterm, base64DecodeStream, if_pos rfl]
  rw [DecodersAgree, hmemory, hstream]
  by_cases hempty : (base64Feed s [] []).1 = []
  · have hcount : sextetCount s % 4 = 0 := by rw [← hlength, hempty, List.length_nil]
    rw [decide_eq_true hempty]
    exact iff_of_true (sameBytes_accepted _ _) fun hleft => hleft.2.2 hcount
  · have hcount : 0 < sextetCount s % 4 := hlength ▸ List.length_pos_iff.mpr hempty
    rw [decide_eq_false hempty]
    -- The decoder on memory returns what it has by then, which is nothing before the first quantum.
    by_cases hfour : 4 ≤ sextetCount s
    · have hne : (base64Feed s [] []).2 ≠ [] := List.ne_nil_of_length_pos (by omega)
      exact iff_of_false (not_sameBytes hne _ _) fun h => h ⟨hpad, hfour, by omega⟩
    · have hnil : (base64Feed s [] []).2 = [] := List.eq_nil_of_length_eq_zero (by omega)
      rw [hnil]
      exact iff_of_true (sameBytes_refused _ _) fun hleft => hfour hleft.2.1

/-- At the first pad, what counts is whether a second one is missing at the end. -/
theorem decodersAgree_of_pad {text rest : Bytes} (hpad : (0x3d : UInt8) ∉ text)
    (hterm : (0x3c : UInt8) ∉ text) (hterm' : (0x3c : UInt8) ∉ rest) :
    DecodersAgree (text ++ 0x3d :: rest) ↔ ¬ (rest = [] ∧ sextetCount text % 4 = 2) := by
  obtain ⟨hlength, -⟩ := base64Feed_length hpad [] (by decide) []
  rw [List.length_nil, Nat.zero_add] at hlength
  have hmemory : base64Decode (text ++ 0x3d :: rest) =
      base64DecodePad rest (base64Feed text [] []).2 (base64Feed text [] []).1 := by
    rw [base64Decode, base64DecodeLoop_append hpad, base64DecodeLoop_pad]
  have hstream : base64DecodeStream 0x3c (text ++ 0x3d :: rest ++ [0x3c]) [] [] =
      base64DecodeStreamPad 0x3c (rest ++ [0x3c]) (base64Feed text [] []).2
        (base64Feed text [] []).1 := by
    rw [List.append_assoc, List.cons_append, base64DecodeStream_append hpad hterm, base64DecodeStream,
      if_neg (by decide)]
    simp only
    rw [if_neg (by decide), if_pos (by decide)]
  rw [DecodersAgree, hmemory, hstream]
  generalize (base64Feed text [] []).2 = out
  generalize (base64Feed text [] []).1 = data at hlength
  match data, hlength with
  | [], hlength =>
    exact iff_of_true (sameBytes_refused _ _) fun h => by simp [h.2] at hlength
  | [_], hlength =>
    exact iff_of_true (sameBytes_refused _ _) fun h => by simp [h.2] at hlength
  | [data0, data1], hlength =>
    cases rest with
    | nil =>
      have hcount : sextetCount text % 4 = 2 := hlength.symm
      refine iff_of_false ?_ fun h => h ⟨rfl, hcount⟩
      have hstream' : base64DecodeStreamPad 0x3c ([] ++ [0x3c]) out [data0, data1] =
        (false, out, []) := by
        rw [base64DecodeStreamPad, if_pos (by decide)]
        rfl
      rw [hstream']
      exact not_sameBytes (List.append_ne_nil_of_right_ne_nil out (by simp)) _ _
    | cons c rest =>
      refine iff_of_true ?_ fun h => List.cons_ne_nil _ _ h.1
      rw [base64DecodePad, base64DecodeStreamPad, List.cons_append, List.headD_cons]
      by_cases hc : base64Value c = base64Pad
      · rw [if_pos hc, if_neg (not_not_intro hc)]
        exact sameBytes_finish (fun h => hterm' (List.mem_cons_of_mem c h)) _ _
      · rw [if_neg hc, if_pos hc]
        exact sameBytes_refused _ _
  | [data0, data1, data2], hlength =>
    exact iff_of_true (sameBytes_finish hterm' _ _) fun h => by simp [h.2] at hlength
  | _ :: _ :: _ :: _ :: _, hlength =>
    simp only [List.length_cons] at hlength
    omega

/-- The decoder on memory and the one on a stream agree on a text exactly when it does not end with
sextets that are left over, nor with a pad that should be followed by another one. -/
theorem decodersAgree_iff {s : Bytes} (hterm : (0x3c : UInt8) ∉ s) :
    DecodersAgree s ↔ ¬ LeftOver s ∧ ¬ LonePad s := by
  by_cases hpad : (0x3d : UInt8) ∈ s
  · obtain ⟨text, rest, rfl, htext⟩ := List.eq_append_cons_of_mem hpad
    rw [List.mem_append, List.mem_cons, not_or, not_or] at hterm
    rw [decodersAgree_of_pad htext hterm.1 hterm.2.2, LonePad, beforePad_append htext]
    constructor
    · intro h
      refine ⟨fun hleft => hleft.1 hpad, ?_⟩
      rintro ⟨heq, hcount⟩
      exact h ⟨(List.cons.inj (List.append_cancel_left heq)).2, hcount⟩
    · rintro ⟨-, h⟩ ⟨rfl, hcount⟩
      exact h ⟨rfl, hcount⟩
  · rw [decodersAgree_of_notMem hpad hterm]
    refine ⟨fun h => ⟨h, fun hlone => ?_⟩, fun h => h.1⟩
    rw [LonePad] at hlone
    exact hpad (by rw [hlone.1]; simp)

/-- Both decode a text with its two pads. -/
theorem decodersAgree_pads : DecodersAgree (ascii "QUJDRA==") :=
  (decodersAgree_iff (by decide +kernel)).mpr
    ⟨fun h => absurd h.1 (by decide +kernel), fun h => absurd h.1 (by decide +kernel)⟩

/-- Of `QUJDRA` the decoder on memory drops the sextets that are left over, and in `QQ=` it does not
miss the second pad; the one on a stream refuses both. -/
theorem not_decodersAgree :
    ¬ DecodersAgree (ascii "QUJDRA") ∧ ¬ DecodersAgree (ascii "QQ=") := by
  constructor
  · have hmemory : base64Decode (ascii "QUJDRA") = ascii "ABC" := by decide +kernel
    have hstream : base64DecodeStream 0x3c (ascii "QUJDRA" ++ [0x3c]) [] [] =
        (false, ascii "ABC", [0x3c]) := by decide +kernel
    rw [DecodersAgree, hmemory, hstream]
    exact not_sameBytes (by decide) _ _
  · have hmemory : base64Decode (ascii "QQ=") = ascii "A" := by decide +kernel
    have hstream : base64DecodeStream 0x3c (ascii "QQ=" ++ [0x3c]) [] [] = (false, [], []) := by
      decide +kernel
    rw [DecodersAgree, hmemory, hstream]
    exact not_sameBytes (by decide) _ _

end AnyRpc.Internal
