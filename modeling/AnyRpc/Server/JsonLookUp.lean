import AnyRpc.Document.Growth
import AnyRpc.Server.Calls
import AnyRpc.Server.JsonPayload

/-! # The lookups of a JSON request

The members of a request are looked up one after the other, and a lookup that fails adds a member. The
references that are already taken stay valid unless the map is full by then (`Server.jsonLookUp_cases`).
How much room there is in a map that was read depends on the number of its members alone, and so a
request can be made for which the references are lost (`Server.jsonLookUp_undefined_iff`). -/

namespace AnyRpc

open Library Handler Reader

namespace JsonReader

open Reader

variable [Platform]

/-- A text that is read makes the calls of a tree, or none when there is nothing to read. -/
theorem events_of_parse {s s' : State} (h : parse s = .ok () s') :
    s'.events = s.events ∨ ∃ t : EventTree, s'.events = s.events ++ t.events := by
  obtain ⟨w, s₁, -, -, -, hstep, hskip⟩ := skipWhiteSpace_split s
  have hevents : s₁.events = s.events := hstep.events.trans (List.append_nil _)
  rw [parse, bind_of_ok hskip, bind_of_ok (eof_apply s₁)] at h
  cases heof : s₁.is.eof with
  | true =>
    rw [heof] at h
    cases h
    exact .inl hevents
  | false =>
    rw [heof] at h
    have hrun : parseValue (s₁.is.rest.length + 1) s₁ = .ok () s' := h
    rcases (parseValue_reads (Nat.lt_succ_self s₁.is.rest.length)).cases with
      ⟨⟨⟩, s'', hrun', ⟨_, ⟨t, -, rfl⟩, hcalls⟩, -⟩ | ⟨f, s'', hrun', -⟩
    · cases hrun.symm.trans hrun'
      exact .inr ⟨t, by rw [hcalls, hevents]⟩
    · cases hrun.symm.trans hrun'

/-- What a text is read as is built from a tree of calls, or not assigned. -/
theorem exists_build {is : ReadStream} {d : Document} {r : Parsed Document JsonReader}
    (hrun : parseStream is d = .ok r) (hok : r.hasParseError = false) :
    r.handler.value = .invalid ∨ ∃ t : EventTree, t.build d.convertExtensions = .ok r.handler.value := by
  obtain ⟨s', hparse⟩ := parse_of_parseStream Document.reports hrun hok
  rcases events_of_parse hparse with hevents | ⟨t, hevents⟩
  · have hdeliver : deliver s'.events (startDocument d) = .ok (startDocument d) := by
      rw [hevents]
      rfl
    have hread := Reader.parseStream_of_ok (s := new is) hparse hdeliver
    cases hrun.symm.trans hread
    exact .inl rfl
  · cases hbuild : t.build d.convertExtensions with
    | ok v =>
      have hread := Reader.parseStream_of_build (s := new is) hparse hevents hbuild
      cases hrun.symm.trans hread
      exact .inr ⟨t, hbuild⟩
    | error f =>
      obtain ⟨r', hread, herror⟩ :=
        Reader.parseStream_of_build_error (s := new is) hparse hevents hbuild
      cases hrun.symm.trans hread
      rw [hok] at herror
      cases herror

/-- No part of what is read is invalid, unless nothing was read. -/
theorem fullyValid_of_parseStream {is : ReadStream} {d : Document} {r : Parsed Document JsonReader}
    (hrun : parseStream is d = .ok r) (hok : r.hasParseError = false) :
    r.handler.value = .invalid ∨ r.handler.value.FullyValid := by
  rcases exists_build hrun hok with hvalue | ⟨t, hbuild⟩
  · exact .inl hvalue
  · exact .inr (EventTree.fullyValid_of_build hbuild)

/-- The containers of what is read got their parts one by one. -/
theorem grown_of_parseStream {is : ReadStream} {d : Document} {r : Parsed Document JsonReader}
    (hrun : parseStream is d = .ok r) (hok : r.hasParseError = false) : r.handler.value.Grown := by
  rcases exists_build hrun hok with hvalue | ⟨t, hbuild⟩
  · rw [hvalue]
    trivial
  · exact EventTree.grown_of_build hbuild

end JsonReader

/-! ## Lookups -/

namespace Value

/-- The value of a member has what every part of the map has. -/
theorem All.field? {p : Value → Prop} {v w : Value} {key : Bytes} (hv : v.All p)
    (h : Value.field? key v = some w) : w.All p := by
  cases v with
  | map ms c =>
    obtain ⟨i, -, hchild⟩ := Option.bind_eq_some_iff.mp h
    obtain ⟨m, hm, rfl⟩ := Option.map_eq_some_iff.mp hchild
    exact (all_map.mp hv).2 m (List.mem_of_getElem? hm)
  | _ => cases h

/-- How many of the keys no member has. -/
def absent (keys : List Bytes) (ms : List (Bytes × Value)) : ℕ :=
  keys.countP fun key => (memberIndex key ms).isNone

/-- The capacity of a map of a capacity behind the lookup of a key. -/
def capacityBehind (key : Bytes) (ms : List (Bytes × Value)) (c : ℕ) : ℕ :=
  if c < ms.length + absent [key] ms then grownMapCapacity c else c

/-- A lookup that fails adds a member, for which the map may have to grow. -/
theorem member_lookUp {key : Bytes} (hkey : (0 : UInt8) ∉ key) {ms : List (Bytes × Value)} {c : ℕ}
    (hsize : ms.length ≤ c) (hc : c ≤ maxMapCapacity) (hlimit : ms.length < maxMapCapacity) :
    ∃ i ms', member key (map ms c) = .ok i (map ms' (capacityBehind key ms c)) ∧
      ms'.length = ms.length + absent [key] ms ∧
      ms'.length ≤ capacityBehind key ms c ∧ capacityBehind key ms c ≤ maxMapCapacity ∧
      c ≤ capacityBehind key ms c ∧ (capacityBehind key ms c = c ↔ ms'.length ≤ c) ∧
      ∀ k, k ≠ key → (memberIndex k ms').isNone = (memberIndex k ms).isNone := by
  cases hi : memberIndex key ms with
  | some i =>
    have habsent : absent [key] ms = 0 := by simp [absent, hi]
    have hbehind : capacityBehind key ms c = c := by
      rw [capacityBehind, habsent, if_neg (by omega)]
    rw [hbehind, habsent]
    exact ⟨i, ms, member_of_some hkey hi, rfl, hsize, hc, le_rfl, iff_of_true rfl hsize,
      fun _ _ => rfl⟩
  | none =>
    have habsent : absent [key] ms = 1 := by simp [absent, hi]
    have hindex (k : Bytes) (hk : k ≠ key) :
        (memberIndex k (ms ++ [(key, invalid)])).isNone = (memberIndex k ms).isNone := by
      have hne : ¬ key = k := fun h => hk h.symm
      simp [memberIndex, List.findIdx?_append, hne]
    by_cases hroom : ms.length < c
    · have hbehind : capacityBehind key ms c = c := by
        rw [capacityBehind, habsent, if_neg (by omega)]
      rw [hbehind, habsent]
      have hlength : (ms ++ [(key, invalid)]).length ≤ c := by
        rw [List.length_append, List.length_singleton]
        exact hroom
      exact ⟨_, _, member_of_none hkey hi hroom, List.length_append, hlength, hc, le_rfl,
        iff_of_true rfl hlength, hindex⟩
    · have hbehind : capacityBehind key ms c = grownMapCapacity c := by
        rw [capacityBehind, habsent, if_pos (by omega)]
      obtain ⟨hgrown, hle⟩ := lt_grownMapCapacity hc (not_lt.mp hroom) hsize hlimit
      have hgrow : addMemberCheckCapacity (map ms c) = .ok () (map ms (grownMapCapacity c)) := by
        simp [addMemberCheckCapacity, isInvalid, isMap, not_lt.mp hroom, hgrown]
      have hlength : (ms ++ [(key, invalid)]).length = ms.length + 1 := List.length_append
      rw [hbehind, habsent]
      refine ⟨ms.length, ms ++ [(key, invalid)], ?_, hlength, ?_, hle, ?_, ?_, hindex⟩
      · rw [member_map hkey, hi]
        show addMember { bytes := key } (map ms c) = _
        rw [addMember, bind_of_ok hgrow]
        rfl
      all_goals omega

/-- A map in which some keys were looked up. Its capacity is the one before exactly as long as the
members fit it. -/
structure LookedUp (keys : List Bytes) (ms : List (Bytes × Value)) (c : ℕ) (v : Value) : Prop where
  map : ∃ ms' c', v = Value.map ms' c' ∧ ms'.length = ms.length + absent keys ms ∧ ms'.length ≤ c' ∧
    c' ≤ maxMapCapacity ∧ c ≤ c' ∧ (c' = c ↔ ms'.length ≤ c) ∧
    ∀ k, k ∉ keys → (memberIndex k ms').isNone = (memberIndex k ms).isNone

theorem lookedUp_nil {ms : List (Bytes × Value)} {c : ℕ} (hsize : ms.length ≤ c)
    (hc : c ≤ maxMapCapacity) : LookedUp [] ms c (map ms c) :=
  ⟨ms, c, rfl, rfl, hsize, hc, le_rfl, iff_of_true rfl hsize, fun _ _ => rfl⟩

/-- One more lookup. -/
theorem LookedUp.member {keys : List Bytes} {key : Bytes} {ms : List (Bytes × Value)} {c : ℕ}
    {v : Value} (h : LookedUp keys ms c v) (hkey : (0 : UInt8) ∉ key) (hnew : key ∉ keys)
    (hlimit : ms.length + keys.length < maxMapCapacity) :
    ∃ i w, Value.member key v = .ok i w ∧ LookedUp (keys ++ [key]) ms c w := by
  obtain ⟨ms', c', rfl, hlength, hsize, hc', hle, hsame, hindex⟩ := h.map
  have habsent : absent keys ms ≤ keys.length := List.countP_le_length
  obtain ⟨i, ms'', hmember, hlength', hsize', hc'', hle', hsame', hindex'⟩ :=
    member_lookUp hkey hsize hc' (by omega)
  have hcount : absent (keys ++ [key]) ms = absent keys ms + absent [key] ms' := by
    simp only [absent, List.countP_append, List.countP_singleton, hindex key hnew]
  refine ⟨i, _, hmember, ⟨ms'', _, rfl, ?_, hsize', hc'', hle.trans hle', ?_, ?_⟩⟩
  · rw [hlength', hlength, hcount, Nat.add_assoc]
  · -- The capacity does not shrink, and so it is the one before only if it never grew.
    constructor <;> intro h <;> omega
  · intro k hk
    rw [List.mem_append, List.mem_singleton, not_or] at hk
    rw [hindex' k hk.2, hindex k hk.1]

end Value

namespace Server

/-- The keys that are looked up behind the first one. -/
def laterKeys : List Bytes := [ascii "id", ascii "jsonrpc", ascii "params"]

/-- Behind the first lookup there is no room for the members that a request with this map lacks. -/
def Overflows (ms : List (Bytes × Value)) (c : ℕ) : Prop :=
  Value.capacityBehind (ascii "method") ms c <
    ms.length + Value.absent [ascii "method"] ms + Value.absent laterKeys ms

instance (ms : List (Bytes × Value)) (c : ℕ) : Decidable (Overflows ms c) :=
  inferInstanceAs (Decidable (_ < _))

/-- The lookups of a request return its members, unless one of the references is lost. -/
theorem jsonLookUp_cases {ms : List (Bytes × Value)} {c : ℕ} (hsize : ms.length ≤ c)
    (hc : c ≤ Value.maxMapCapacity) (hlimit : ms.length + 4 ≤ Value.maxMapCapacity) :
    (¬ Overflows ms c ∧ ∃ request w, jsonLookUp (.map ms c) = .ok request w) ∨
      (Overflows ms c ∧ ∃ w, jsonLookUp (.map ms c) = .error .undefined w) := by
  have hmethodKey : (0 : UInt8) ∉ ascii "method" := by decide
  have hidKey : (0 : UInt8) ∉ ascii "id" := by decide
  have hrpcKey : (0 : UInt8) ∉ ascii "jsonrpc" := by decide
  have hparamsKey : (0 : UInt8) ∉ ascii "params" := by decide
  obtain ⟨i₁, ms₁, hmethod, hlength₁, hsize₁, hc₁, -, -, hindex⟩ :=
    Value.member_lookUp hmethodKey hsize hc (by omega)
  have habsent₁ : Value.absent [ascii "method"] ms ≤ 1 := List.countP_le_length
  have habsent : Value.absent laterKeys ms₁ = Value.absent laterKeys ms := by
    refine List.countP_congr fun key hkey => ?_
    rw [hindex key (by rintro rfl; exact absurd hkey (by decide))]
  obtain ⟨i₂, v₂, hid, h₂⟩ := (Value.lookedUp_nil hsize₁ hc₁).member hidKey
    List.not_mem_nil (by rw [List.length_nil]; omega)
  obtain ⟨i₃, v₃, hrpc, h₃⟩ := h₂.member hrpcKey (by decide)
    (by rw [List.length_append]; simp only [List.length_nil, List.length_singleton]; omega)
  obtain ⟨i₄, v₄, hparams, h₄⟩ := h₃.member hparamsKey (by decide)
    (by simp only [List.length_append, List.length_nil, List.length_singleton]; omega)
  obtain ⟨ms₄, c₄, rfl, hlength₄, -, -, -, hsame, -⟩ := h₄.map
  have hcount : ms₄.length =
      ms.length + Value.absent [ascii "method"] ms + Value.absent laterKeys ms := by
    rw [hlength₄, hlength₁, ← habsent]
    rfl
  rw [hcount] at hsame
  have hrun : jsonLookUp (.map ms c) = (do
      let message ← get
      if mapCapacity message ≠ Value.capacityBehind (ascii "method") ms c then
        throw .undefined
      let referred (i : ℕ) := (message.child? i).getD .invalid
      return { method := referred i₁, id := referred i₂, rpc := referred i₃,
               params := referred i₄ } : Exec Value JsonRequest) (.map ms₄ c₄) := by
    rw [jsonLookUp, bind_of_ok hmethod, bind_of_ok (get_apply _), bind_of_ok hid, bind_of_ok hrpc,
      bind_of_ok hparams]
    rfl
  rw [hrun, bind_of_ok (get_apply _)]
  by_cases hroom : c₄ = Value.capacityBehind (ascii "method") ms c
  · have hsteady : ¬ mapCapacity (.map ms₄ c₄) ≠ Value.capacityBehind (ascii "method") ms c :=
      not_not.mpr hroom
    rw [if_neg hsteady]
    exact .inl ⟨not_lt.mpr (hsame.mp hroom), _, _, rfl⟩
  · have hmoved : mapCapacity (.map ms₄ c₄) ≠ Value.capacityBehind (ascii "method") ms c := hroom
    rw [if_pos hmoved]
    exact .inr ⟨not_le.mp fun h => hroom (hsame.mpr h), _, rfl⟩

/-- The members of a request, not assigned where it lacks them. -/
def JsonRequest.ofMessage (message : Value) : JsonRequest where
  method := (message.field? (ascii "method")).getD .invalid
  id := (message.field? (ascii "id")).getD .invalid
  rpc := (message.field? (ascii "jsonrpc")).getD .invalid
  params := (message.field? (ascii "params")).getD .invalid

/-- The requests of a message: the message itself, or the elements of an array. -/
def jsonRequests : Value → List Value
  | .map ms c => [.map ms c]
  | .array messages _ => messages
  | _ => []

/-- The requests of a message that got its parts one by one. -/
theorem grown_of_mem_jsonRequests {message request : Value} (h : message.Grown)
    (hmem : request ∈ jsonRequests message) : request.Grown := by
  cases message with
  | map ms c =>
    cases List.mem_singleton.mp hmem
    exact h
  | array messages c => exact (Value.all_array.mp h).2 request hmem
  | _ => cases hmem

/-- The requests of a message without invalid parts have none. -/
theorem fullyValid_jsonRequests {message : Value}
    (h : message = .invalid ∨ message.FullyValid) : ∀ m ∈ jsonRequests message, m.FullyValid := by
  intro m hm
  rcases h with rfl | h
  · cases hm
  · cases message with
    | map ms c =>
      cases List.mem_singleton.mp hm
      exact h
    | array messages c => exact (Value.all_array.mp h).2 m hm
    | _ => cases hm

/-- The number of requests is within the limit on arrays. -/
theorem length_jsonRequests_le {message : Value} (h : message.Grown) :
    (jsonRequests message).length ≤ maxPushedElements := by
  cases message with
  | map ms c => exact (by decide : 1 ≤ maxPushedElements)
  | array messages c => exact (Value.all_array.mp h).1.1
  | _ => exact Nat.zero_le _

variable [Platform]

/-- The capacity of a request that is read. -/
theorem capacity_of_mem_jsonRequests {request : Bytes} {beyond : UInt8}
    {reader : Parsed Document JsonReader} (hread : jsonParse request beyond = .ok reader)
    (hok : reader.hasParseError = false) {ms : List (Bytes × Value)} {c : ℕ}
    (hmem : .map ms c ∈ jsonRequests reader.handler.value) : c = Value.capacityOf ms.length := by
  have hgrown := JsonReader.grown_of_parseStream hread hok
  exact (Value.all_map.mp (grown_of_mem_jsonRequests hgrown hmem)).1.2

/-- The requests that lose a reference are those that lack more members than the map has room for
behind its first lookup. The references of all others lead to the members of the request. -/
theorem jsonLookUp_undefined_iff {request : Bytes} {beyond : UInt8}
    {reader : Parsed Document JsonReader} (hread : jsonParse request beyond = .ok reader)
    (hok : reader.hasParseError = false) {ms : List (Bytes × Value)} {c : ℕ}
    (hmem : .map ms c ∈ jsonRequests reader.handler.value)
    (hlimit : ms.length + 4 ≤ Value.maxMapCapacity) :
    ((∃ w, jsonLookUp (.map ms c) = .error .undefined w) ↔
        Overflows ms (Value.capacityOf ms.length)) ∧
      (¬ Overflows ms (Value.capacityOf ms.length) →
        ∃ w, jsonLookUp (.map ms c) = .ok (.ofMessage (.map ms c)) w) := by
  cases capacity_of_mem_jsonRequests hread hok hmem
  obtain ⟨hsize, hmax⟩ := Value.capacityOf_bounds (n := ms.length) (by omega)
  rcases jsonLookUp_cases hsize hmax hlimit with ⟨hroom, found, w, hrun⟩ | ⟨hover, w, hrun⟩
  · refine ⟨iff_of_false ?_ hroom, fun _ => ⟨w, ?_⟩⟩
    · rintro ⟨w', hlost⟩
      cases hrun.symm.trans hlost
    · rw [hrun, jsonLookUp_ok hrun]
      rfl
  · exact ⟨iff_of_true ⟨w, hrun⟩ hover, fun hroom => absurd hover hroom⟩

/-- A notification of sixteen members, for which the missing id is one too many. -/
def crowdedNotification : Bytes :=
  ascii ("\x7b\"method\":0,\"jsonrpc\":0,\"params\":0,\"a\":0,\"b\":0,\"c\":0,\"d\":0,\"e\":0," ++
    "\"f\":0,\"g\":0,\"h\":0,\"i\":0,\"j\":0,\"k\":0,\"l\":0,\"m\":0\x7d")

/-- How many members a map has, and if its next lookups lose a reference. -/
def crowding : Value → Option (ℕ × Bool)
  | .map ms _ => some (ms.length, decide (Overflows ms (Value.capacityOf ms.length)))
  | _ => none

omit [Platform] in
theorem jsonLookUp_undefined_iff_crowded :
    letI := Platform.blank
    ∃ reader ms c, jsonParse crowdedNotification 0 = .ok reader ∧ reader.handler.value = .map ms c ∧
      Overflows ms (Value.capacityOf ms.length) ∧ ∃ w, jsonLookUp (.map ms c) = .error .undefined w := by
  let _ := Platform.blank
  have hread : (jsonParse crowdedNotification 0).toOption.map
      (fun reader => (reader.hasParseError, crowding reader.handler.value)) =
        some (false, some (16, true)) := by
    decide +kernel
  cases hparse : jsonParse crowdedNotification 0 with
  | error f =>
    rw [hparse] at hread
    cases hread
  | ok reader =>
    rw [hparse] at hread
    obtain ⟨hok, hmap⟩ := Prod.mk.inj (Option.some.inj hread)
    cases hvalue : reader.handler.value with
    | map ms c =>
      rw [hvalue] at hmap
      obtain ⟨hlength, hover⟩ := Prod.mk.inj (Option.some.inj hmap)
      have hmem : Value.map ms c ∈ jsonRequests reader.handler.value := by
        rw [hvalue]
        exact List.mem_singleton.mpr rfl
      have hlimit : ms.length + 4 ≤ Value.maxMapCapacity := by
        rw [hlength]
        decide
      exact ⟨reader, ms, c, rfl, hvalue, of_decide_eq_true hover,
        (jsonLookUp_undefined_iff hparse hok hmem hlimit).1.mpr (of_decide_eq_true hover)⟩
    | _ =>
      rw [hvalue] at hmap
      cases hmap

end Server

end AnyRpc
