import AnyRpc.MessagePack.Steps
import AnyRpc.Reader.Calls

/-! # The MessagePack reader on any bytes

From any bytes the reader makes the calls of a tree, or throws within such calls; it never runs out
of depth, because every container takes a byte for its token. The keys of the tree are those that
`ParseKey` accepts. -/

namespace AnyRpc.MessagePackReader

open Library Reader MessagePack

/-- A key that `ParseKey` accepts: it is short, and when it is copied it is not empty. -/
def KeyReadable (inSitu : Bool) (k : Bytes) : Prop := k.length < 256 ∧ (inSitu = true ∨ k ≠ [])

/-- The trees of which every key is accepted. -/
def keysReadable (inSitu : Bool) : EventTree → Prop :=
  EventTree.AllKeys fun str => KeyReadable inSitu str.bytes

/-- An accepted key, or none. -/
def keyReadable (inSitu : Bool) (k : Option StrArg) : Prop :=
  ∀ str, k = some str → KeyReadable inSitu str.bytes

/-- Between two values, with at most `n` bytes left. -/
structure Readable (inSitu : Bool) (n : ℕ) (s : State) : Prop where
  mode : s.is.inSitu = inSitu
  left : ∃ ahead r, Left ahead s r ∧ r.length ≤ n

/-- After a token, with at most `n` bytes left. -/
structure Open (inSitu : Bool) (n : ℕ) (s : State) : Prop where
  mode : s.is.inSitu = inSitu
  region : s.is.region = none
  length_le : s.is.rest.length ≤ n

/-- A part of the reader makes the calls of a word, or throws within the calls of one. -/
abbrev Reads {α : Type} (inSitu : Bool) (n : ℕ) (L : Language Event) (p : ReadM α) (s : State) :
    Prop :=
  Calls L (prefixes L) (fun _ s' => Readable inSitu n s') Fault.IsError p s

section

variable {inSitu : Bool} {n : ℕ} {L : Language Event} {s : State}

theorem reads_of_step {p : ReadM Unit} {s' : State} {es : List Event} (hp : p s = .ok () s')
    (hstep : Step s s' es) (hes : es ∈ L) (h : Readable inSitu n s') : Reads inSitu n L p s :=
  emits_of_ok hp hes hstep.events h

theorem reads_of_throws {α : Type} {p : ReadM α} (h : Throws p s) (hL : ∃ es, es ∈ L) :
    Reads inSitu n L p s := by
  obtain ⟨f, s', hp, hf, hevents⟩ := h
  exact emits_of_error hp (nil_mem_prefixes hL) (by rw [hevents, List.append_nil]) hf

/-- A choice of which both sides read. -/
theorem reads_ite {α : Type} {c : Prop} [Decidable c] {p q : ReadM α} (hp : Reads inSitu n L p s)
    (hq : Reads inSitu n L q s) : Reads inSitu n L (if c then p else q) s := by
  split_ifs
  · exact hp
  · exact hq

/-- What is left after a part that stood after a token. -/
theorem Open.readable {s' : State} {es : List Event} (h : Open inSitu n s) (hstep : Step s s' es)
    {ahead : Bool} {k : ℕ} (hleft : Left ahead s' (s.is.rest.drop k)) : Readable inSitu n s' := by
  refine ⟨hstep.inSitu.trans h.mode, ahead, _, hleft, ?_⟩
  have := h.length_le
  rw [List.length_drop]
  omega

/-- Bytes that are consumed. -/
theorem Open.advance (h : Open inSitu n s) (k : ℕ) :
    Open inSitu n { s with is := s.is.advance k } := by
  refine ⟨h.mode, s.is.region_advance h.region k, ?_⟩
  have := h.length_le
  rw [ReadStream.rest_advance, List.length_drop]
  omega

/-- There is a tree. -/
theorem exists_mem_treeCalls : ∃ es, es ∈ treeCalls (keysReadable inSitu) :=
  ⟨_, mem_treeCalls (t := .leaf .null) trivial⟩

end

/-! ## Scalars -/

section

variable {inSitu : Bool} {n : ℕ} {s : State} (h : Open inSitu n s)

include h

theorem scalar_reads (sc : Scalar) :
    Reads inSitu n (treeCalls (keysReadable inSitu)) (scalar sc) s := by
  obtain ⟨s', hrun, hstep, hleft⟩ := scalar_spec sc h.region (List.drop_zero (l := s.is.rest)).symm
  exact reads_of_step hrun hstep (scalar_mem_treeCalls trivial) (h.readable hstep hleft)

theorem scalar_readAll_reads (k : ℕ) (f : Bytes → Scalar) :
    Reads inSitu n (treeCalls (keysReadable inSitu)) (do scalar (f (← readAll k))) s := by
  rcases scalar_readAll_cases k f h.region with ⟨-, s', hrun, hstep, hleft⟩ | ⟨-, hthrows⟩
  · exact reads_of_step hrun hstep (scalar_mem_treeCalls trivial) (h.readable hstep hleft)
  · exact reads_of_throws hthrows exists_mem_treeCalls

theorem scalar_getByte_reads (f : UInt8 → Scalar) :
    Reads inSitu n (treeCalls (keysReadable inSitu)) (do scalar (f (← getByte))) s := by
  rcases scalar_getByte_cases f h.region with ⟨b, r, hrest, s', hrun, hstep, hleft⟩ | ⟨-, hthrows⟩
  · have hleft' : Left false s' (s.is.rest.drop 1) := by
      rw [hrest]
      exact hleft
    exact reads_of_step hrun hstep (scalar_mem_treeCalls trivial) (h.readable hstep hleft')
  · exact reads_of_throws hthrows exists_mem_treeCalls

theorem parseStr_reads (k : ℕ) :
    Reads inSitu n (treeCalls (keysReadable inSitu)) (parseStr k) s := by
  rcases parseStr_cases k h.region with ⟨-, arg, s', hrun, hstep, -, -, hleft⟩ | ⟨-, hthrows⟩
  · exact reads_of_step hrun hstep (scalar_mem_treeCalls trivial) (h.readable hstep hleft)
  · exact reads_of_throws hthrows exists_mem_treeCalls

theorem parseBin_reads (k : ℕ) :
    Reads inSitu n (treeCalls (keysReadable inSitu)) (parseBin k) s := by
  rcases parseBin_cases k h.region with ⟨-, arg, s', hrun, hstep, -, hleft⟩ | ⟨-, hthrows⟩
  · exact reads_of_step hrun hstep (scalar_mem_treeCalls trivial) (h.readable hstep hleft)
  · exact reads_of_throws hthrows exists_mem_treeCalls

/-- What is read from a number of bytes. -/
theorem readAll_reads {L : Language Event} (hL : ∃ es, es ∈ L) (k : ℕ) {f : Bytes → ReadM Unit}
    (hf : ∀ str s', Open inSitu n s' → Reads inSitu n L (f str) s') :
    Reads inSitu n L (do f (← readAll k)) s := by
  rcases readAll_cases k s with ⟨-, hrun⟩ | ⟨-, hthrows⟩
  · exact emits_bind_of_ok hrun rfl (hf _ _ (h.advance k))
  · exact reads_of_throws (hthrows.bind _) hL

/-- What is read from one byte. -/
theorem getByte_reads {L : Language Event} (hL : ∃ es, es ∈ L) {f : UInt8 → ReadM Unit}
    (hf : ∀ b s', Open inSitu n s' → Reads inSitu n L (f b) s') :
    Reads inSitu n L (do f (← getByte)) s := by
  rcases getByte_cases s with ⟨b, r, -, hrun⟩ | ⟨-, hthrows⟩
  · exact emits_bind_of_ok hrun rfl (hf _ _ (h.advance 1))
  · exact reads_of_throws (hthrows.bind _) hL

/-- `ParseStr8` takes a null byte for the length at the end of the stream. -/
theorem parseStr8_reads : Reads inSitu n (treeCalls (keysReadable inSitu)) parseStr8 s :=
  emits_bind_of_ok (getChar_apply s) rfl (parseStr_reads (h.advance 1) _)

end

/-! ## Keys -/

theorem exists_mem_keyCalls (inSitu : Bool) : ∃ es, es ∈ keyCalls (keyReadable inSitu) :=
  ⟨_, none, by simp [keyReadable], rfl⟩

/-- The length of a key fits a byte, and its token takes one. -/
theorem keyForm_bounds {b : UInt8} {r body : Bytes} {k : ℕ} (h : keyForm b r = some (k, body)) :
    k < 256 ∧ body.length ≤ r.length := by
  unfold keyForm at h
  split_ifs at h
  · cases h
    exact ⟨UInt8.toNat_lt _, le_rfl⟩
  · cases r with
    | nil => cases h
    | cons c r =>
      cases h
      exact ⟨UInt8.toNat_lt _, by simp⟩

theorem parseKeyString_reads {inSitu : Bool} {n k : ℕ} {s : State} (h : Open inSitu n s)
    (hlen : s.is.rest.length < n) (hvalid : s.sub.tokenValid = true) (hk : k < 256) :
    Reads inSitu n (keyCalls (keyReadable inSitu)) (parseKeyString k) s := by
  cases hmode : s.is.inSitu with
  | true =>
    rcases parseKeyString_inSitu_cases k hmode with ⟨-, arg, s', hrun, hstep, hbytes, -, hleft⟩ |
      ⟨-, hthrows⟩
    · refine reads_of_step hrun hstep ⟨some arg, ?_, rfl⟩ (h.readable hstep hleft)
      rintro str ⟨⟩
      refine ⟨?_, .inl (h.mode.symm.trans hmode)⟩
      rw [hbytes, List.length_take]
      omega
    · exact reads_of_throws hthrows (exists_mem_keyCalls _)
  | false =>
    rcases Nat.eq_zero_or_pos k with rfl | hpos
    · refine reads_of_step (parseKeyString_copy_zero hmode) (Step.refl s)
        ⟨none, by simp [keyReadable], rfl⟩
        ⟨h.mode, true, s.sub.token :: s.is.rest, ⟨h.region, ?_, rfl⟩, hlen⟩
      rw [← hvalid]
    · rcases parseKeyString_copy_cases hpos h.region hmode with ⟨hle, s', hrun, hstep, hleft⟩ |
        ⟨-, hthrows⟩
      · refine reads_of_step hrun hstep ⟨some _, ?_, rfl⟩ (h.readable hstep hleft)
        rintro str ⟨⟩
        have hlength : (s.is.rest.take k).length = k := List.length_take_of_le hle
        refine ⟨by rw [hlength]; exact hk, .inr (List.length_pos_iff.mp ?_)⟩
        rw [hlength]
        exact hpos
      · exact reads_of_throws hthrows (exists_mem_keyCalls _)

theorem parseKey_reads {inSitu : Bool} {n : ℕ} {s : State} (h : Readable inSitu n s) :
    Reads inSitu n (keyCalls (keyReadable inSitu)) parseKey s := by
  obtain ⟨hmode, ahead, r, hleft, hlen⟩ := h
  by_cases hrest : s.is.rest = []
  · exact reads_of_throws (parseKey_of_eof hrest) (exists_mem_keyCalls _)
  · cases r with
    | nil =>
      obtain ⟨-, hleft⟩ := hleft
      cases ahead <;> exact absurd hleft.2 hrest
    | cons b r =>
      rcases parseKey_spec hleft hrest with
        ⟨k, body, s', hform, hrun, hstep, hregion, hsub, hbody⟩ | ⟨-, hthrows⟩
      · obtain ⟨hk, hle⟩ := keyForm_bounds hform
        rw [List.length_cons] at hlen
        have hlen' : s'.is.rest.length < n := by
          rw [hbody]
          omega
        exact emits_of_eq hrun (by simpa using hstep.events) (parseKeyString_reads
          ⟨hstep.inSitu.trans hmode, hregion, hlen'.le⟩ hlen' (by rw [hsub]) hk)
      · exact reads_of_throws hthrows (exists_mem_keyCalls _)

/-! ## Containers -/

/-- The elements of an array of a size. -/
def elementsReadable (inSitu : Bool) (k : ℕ) (ts : List EventTree) : Prop :=
  ts.length = k ∧ ∀ t ∈ ts, keysReadable inSitu t

/-- The members of a map of a size. -/
def membersReadable (inSitu : Bool) (k : ℕ) (ms : List (Option StrArg × EventTree)) : Prop :=
  ms.length = k ∧ ∀ m ∈ ms, keyReadable inSitu m.1 ∧ keysReadable inSitu m.2

theorem exists_mem_elementCalls (inSitu : Bool) (k : ℕ) :
    ∃ es, es ∈ elementCalls (elementsReadable inSitu k) := by
  refine ⟨_, List.replicate k (.leaf .null), ⟨List.length_replicate, ?_⟩, rfl⟩
  intro t ht
  rw [List.eq_of_mem_replicate ht]
  trivial

theorem exists_mem_memberCalls (inSitu : Bool) (k : ℕ) :
    ∃ es, es ∈ memberCalls (membersReadable inSitu k) := by
  refine ⟨_, List.replicate k (none, .leaf .null), ⟨List.length_replicate, ?_⟩, rfl⟩
  intro m hm
  rw [List.eq_of_mem_replicate hm]
  exact ⟨by simp [keyReadable], trivial⟩

/-- The separator after all but the last part. -/
theorem separator_reads {inSitu : Bool} {n : ℕ} {s : State} (k : ℕ) (e : Event)
    (h : Readable inSitu n s) :
    Reads inSitu n {if k ≠ 0 then [e] else []} (if k ≠ 0 then call e else pure ()) s := by
  split_ifs
  · exact calls_call ⟨h.mode, h.left⟩
  · exact calls_pure h

section

variable {inSitu : Bool} {n : ℕ} {parse : ReadM Unit}
variable (hparse : ∀ s, Readable inSitu n s →
  Reads inSitu n (treeCalls (keysReadable inSitu)) parse s)

include hparse

theorem parseElements_reads (k : ℕ) {s : State} (h : Readable inSitu n s) :
    Reads inSitu n (elementCalls (elementsReadable inSitu k)) (parseElements parse k) s := by
  induction k generalizing s with
  | zero => exact reads_of_step rfl (Step.refl s) ⟨[], ⟨rfl, by simp⟩, rfl⟩ h
  | succ k ih =>
    have hexists := exists_mem_elementCalls inSitu k
    rw [parseElements_succ]
    have hall := Emits.seq (hparse s h) (exists_mem_mul (exists_mem_singleton _) hexists)
      fun _ s' hs' => Emits.seq (separator_reads k .arraySeparator hs') hexists
        fun _ _ hs'' => ih hs''
    have hle := tree_mul_elementCalls_le (P := keysReadable inSitu)
      (Q := elementsReadable inSitu k) (R := elementsReadable inSitu (k + 1)) (n := k)
      fun t ts ht hts => ⟨hts.1, by simp [hts.1], List.forall_mem_cons.mpr ⟨ht, hts.2⟩⟩
    exact hall.mono hle (prefixes_mono hle) (fun _ _ h => h) fun _ h => h

theorem parseMembers_reads (k : ℕ) {s : State} (h : Readable inSitu n s) :
    Reads inSitu n (memberCalls (membersReadable inSitu k)) (parseMembers parse k) s := by
  induction k generalizing s with
  | zero => exact reads_of_step rfl (Step.refl s) ⟨[], ⟨rfl, by simp⟩, rfl⟩ h
  | succ k ih =>
    have hexists := exists_mem_memberCalls inSitu k
    have hexists' := exists_mem_mul
      (exists_mem_singleton (if k ≠ 0 then [Event.mapSeparator] else [])) hexists
    rw [parseMembers_succ]
    have hall := Emits.seq (parseKey_reads h) (exists_mem_mul exists_mem_treeCalls hexists')
      fun _ s' hs' => Emits.seq (hparse s' hs') hexists'
        fun _ s'' hs'' => Emits.seq (separator_reads k .mapSeparator hs'') hexists
          fun _ _ hs''' => ih hs'''
    have hle := key_mul_memberCalls_le (K := keyReadable inSitu) (P := keysReadable inSitu)
      (Q := membersReadable inSitu k) (R := membersReadable inSitu (k + 1)) (n := k)
      fun key t ms hkey ht hms =>
        ⟨hms.1, by simp [hms.1], List.forall_mem_cons.mpr ⟨⟨hkey, ht⟩, hms.2⟩⟩
    exact hall.mono hle (prefixes_mono hle) (fun _ _ h => h) fun _ h => h

theorem parseArray_reads (k : ℕ) {s : State} (h : Open inSitu n s) :
    Reads inSitu n (treeCalls (keysReadable inSitu)) (parseArray parse k) s := by
  have hstart : Readable inSitu n { s with
      calls := s.calls ++ [⟨.startArray (some k), s.is.tell⟩]
      sub := { s.sub with tokenValid := false } } :=
    ⟨h.mode, false, _, ⟨h.region, rfl, rfl⟩, h.length_le⟩
  have hall := Emits.seq
    (p := do resetToken; call (.startArray (some k))) (L := {[.startArray (some k)]})
    (emits_of_ok rfl rfl (by simp [ReaderState.events]) hstart)
    (exists_mem_mul (exists_mem_elementCalls inSitu k) (exists_mem_singleton _)) fun _ s' hs' =>
      Emits.seq (R := fun _ s' => Readable inSitu n s') (parseElements_reads hparse k hs')
        (exists_mem_singleton [Event.endArray k])
        fun _ s'' hs'' => calls_call (e := .endArray k) ⟨hs''.mode, hs''.left⟩
  have hle := array_le_treeCalls (P := elementsReadable inSitu k) (Q := keysReadable inSitu)
    (n := k) (c := some k) fun ts hts => ⟨hts.1, EventTree.allKeys_array.mpr hts.2⟩
  exact hall.mono hle (prefixes_mono hle) (fun _ _ h => h) fun _ h => h

theorem parseMap_reads (k : ℕ) {s : State} (h : Open inSitu n s) :
    Reads inSitu n (treeCalls (keysReadable inSitu)) (parseMap parse k) s := by
  have hstart : Readable inSitu n { s with
      calls := s.calls ++ [⟨.startMap (some k), s.is.tell⟩]
      sub := { s.sub with tokenValid := false } } :=
    ⟨h.mode, false, _, ⟨h.region, rfl, rfl⟩, h.length_le⟩
  have hall := Emits.seq
    (p := do resetToken; call (.startMap (some k))) (L := {[.startMap (some k)]})
    (emits_of_ok rfl rfl (by simp [ReaderState.events]) hstart)
    (exists_mem_mul (exists_mem_memberCalls inSitu k) (exists_mem_singleton _)) fun _ s' hs' =>
      Emits.seq (R := fun _ s' => Readable inSitu n s') (parseMembers_reads hparse k hs')
        (exists_mem_singleton [Event.endMap k])
        fun _ s'' hs'' => calls_call (e := .endMap k) ⟨hs''.mode, hs''.left⟩
  have hle := map_le_treeCalls (P := membersReadable inSitu k) (Q := keysReadable inSitu)
    (n := k) (c := some k) fun ms hms => ⟨hms.1, EventTree.allKeys_map.mpr hms.2⟩
  exact hall.mono hle (prefixes_mono hle) (fun _ _ h => h) fun _ h => h

/-- Every token leads to the calls of a tree. -/
theorem parseLookup_reads (token : UInt8) {s : State} (h : Open inSitu n s) :
    Reads inSitu n (treeCalls (keysReadable inSitu)) (parseLookup parse token) s := by
  have hscalar := scalar_reads h
  have hreadAll := scalar_readAll_reads h
  have hgetByte := scalar_getByte_reads h
  have hlength := fun k => readAll_reads h exists_mem_treeCalls k
    (f := fun str => parseStr (ofBigEndian str)) fun _ _ h' => parseStr_reads h' _
  have hbinary := fun k => readAll_reads h exists_mem_treeCalls k
    (f := fun str => parseBin (ofBigEndian str)) fun _ _ h' => parseBin_reads h' _
  have harray := fun k => readAll_reads h exists_mem_treeCalls k
    (f := fun str => parseArray parse (ofBigEndian str)) fun _ _ h' => parseArray_reads hparse _ h'
  have hmap := fun k => readAll_reads h exists_mem_treeCalls k
    (f := fun str => parseMap parse (ofBigEndian str)) fun _ _ h' => parseMap_reads hparse _ h'
  unfold parseLookup
  refine reads_ite (emits_bind_of_ok (get_apply s) rfl (hscalar _)) <|
    reads_ite (parseMap_reads hparse _ h) <| reads_ite (parseArray_reads hparse _ h) <|
    reads_ite (emits_bind_of_ok (get_apply s) rfl (parseStr_reads h _)) <|
    reads_ite (emits_bind_of_ok (get_apply s) rfl (hscalar _)) <|
    reads_ite (hscalar _) <| reads_ite (hscalar _) <| reads_ite (hscalar _) <|
    reads_ite (getByte_reads h exists_mem_treeCalls fun _ _ h' => parseBin_reads h' _) <|
    reads_ite (hbinary 2) <| reads_ite (hbinary 4) <|
    reads_ite (hreadAll 4 _) <| reads_ite (hreadAll 8 _) <|
    reads_ite (hgetByte _) <| reads_ite (hreadAll 2 _) <| reads_ite (hreadAll 4 _) <|
    reads_ite (hreadAll 8 _) <|
    reads_ite (hgetByte _) <| reads_ite (hreadAll 2 _) <| reads_ite (hreadAll 4 _) <|
    reads_ite (hreadAll 8 _) <|
    reads_ite (parseStr8_reads h) <| reads_ite (hlength 2) <| reads_ite (hlength 4) <|
    reads_ite (harray 2) <| reads_ite (harray 4) <| reads_ite (hmap 2) <| reads_ite (hmap 4) <|
    reads_ite (reads_of_throws (throws_valueInvalid s) exists_mem_treeCalls) ?_
  exact reads_of_throws ⟨_, s, rfl, ⟨_, rfl, by decide⟩, rfl⟩ exists_mem_treeCalls

end

/-! ## Values -/

/-- From any bytes, `ParseStream` makes the calls of a tree or throws within such calls. -/
theorem parse_reads {inSitu : Bool} {depth n : ℕ} (hdepth : n < depth) {s : State}
    (h : Readable inSitu n s) :
    Reads inSitu n (treeCalls (keysReadable inSitu)) (parse depth) s := by
  induction depth generalizing n s with
  | zero => omega
  | succ depth ih =>
    obtain ⟨hmode, ahead, r, hleft, hlen⟩ := h
    match ahead, r, hleft, hlen with
    | false, [], hleft, _ => exact reads_of_throws (parse_of_nil hleft depth) exists_mem_treeCalls
    | true, [], hleft, _ =>
      obtain ⟨s', hrun, hstep, hleft'⟩ := parse_of_ahead hleft depth
      exact reads_of_step hrun hstep (scalar_mem_treeCalls trivial)
        ⟨hstep.inSitu.trans hmode, _, _, hleft', Nat.zero_le _⟩
    | ahead, b :: r, hleft, hlen =>
      obtain ⟨s', hrun, hstep, hregion, hsub, hrest⟩ := parse_of_cons hleft depth
      rw [List.length_cons] at hlen
      have hlookup := parseLookup_reads (n := n - 1) (fun s hs => ih (by omega) hs) b
        ⟨hstep.inSitu.trans hmode, hregion, by rw [hrest]; omega⟩
      refine emits_of_eq hrun (by simpa using hstep.events)
        (hlookup.mono le_rfl le_rfl ?_ fun _ h => h)
      rintro - s'' ⟨hmode', a, r', hleft', hlen'⟩
      exact ⟨hmode', a, r', hleft', by omega⟩

variable [Platform]

/-- Parsing any bytes into a document leaves the value of a tree, or a parse error. -/
theorem parseStream_cases (is : ReadStream) (hregion : is.region = none) (d : Document) :
    ∃ r, parseStream is d = .ok r ∧
      (r.hasParseError = true ∨ r.hasParseError = false ∧
        ∃ t v, keysReadable is.inSitu t ∧ t.build d.convertExtensions = .ok v ∧
          r.handler = { d with value := v, stack := [] }) := by
  have hreadable : Readable is.inSitu is.rest.length { new is with calls := [] } :=
    ⟨rfl, false, is.rest, ⟨hregion, rfl, rfl⟩, le_rfl⟩
  have hreads := parse_reads (Nat.lt_succ_self is.rest.length) hreadable
  obtain ⟨r, hr, herr | ⟨hok, -, t, v, h⟩⟩ := parseStream_of_calls d hreads
  · exact ⟨r, hr, .inl herr⟩
  · exact ⟨r, hr, .inr ⟨hok, t, v, h⟩⟩

end AnyRpc.MessagePackReader
