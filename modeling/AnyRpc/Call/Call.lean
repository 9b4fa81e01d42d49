import AnyRpc.Client.Request
import AnyRpc.Client.Response
import AnyRpc.Document.Conversion
import AnyRpc.Server.Method

/-! # Calls

A call of a method by way of a protocol. The client makes a request, the handler of the server answers
it, and the client makes a result of the answer. What this is for is to be a call of the method: it is
called once, with the parameters of the client, and the client is told how it ended. -/

namespace AnyRpc

open Library

variable {ω : Type}

/-- The functions that a protocol provides. -/
structure CallProtocol (ω : Type) where
  generateRequest : Bytes → Bool → Exec Generation Bool
  rpcHandler : MethodManager ω → Bytes → UInt8 → Exec (Server ω) Bool
  processResponse : Bytes → UInt8 → BitVec 32 → Bool → Exec Responding ProcessResponseEnum

/-- The result of a call whose method ended with an exception. -/
def faultResult (e : AnyRpcException) : Value :=
  .map [(ascii "code", .number (.ofInt e.code)), (ascii "message", .string e.message)] 0

/-- What the client is told, where an exception leaves the connection as it is given. -/
def Tells (kept : AnyRpcException → ProcessResponseEnum) :
    Except AnyRpcException Value → ProcessResponseEnum → Value → Prop
  | .ok v, outcome, result => outcome = .success ∧ result.contents = v.contents
  | .error e, outcome, result => outcome = kept e ∧ result.contents = (faultResult e).contents

namespace CallProtocol

variable (protocol : CallProtocol ω) (manager : MethodManager ω)

/-- A call is one of the method. What the method is given has the contents of the parameters, and what
the client is given has those of the result; the ends that can be told are given by a predicate. -/
def Calls (tellable : Except AnyRpcException Value → Prop)
    (kept : AnyRpcException → ProcessResponseEnum) (method : Bytes) (g : Generation) (s : Server ω)
    (beyond beyond' : UInt8) : Prop :=
  ∃ g', protocol.generateRequest method false g = .ok true g' ∧ g'.params = g.params ∧
    ∃ params, params.contents = g.params.contents ∧
      ∀ r world, manager.Ends (cString method) params s.world r world → tellable r →
        ∃ s', protocol.rpcHandler manager g'.os beyond s = .ok true s' ∧ s'.world = world ∧
          s'.executed = s.executed ++ [(cString method, params)] ∧
          ∃ outcome t, protocol.processResponse s'.response beyond' g'.requestId false {} =
            .ok outcome t ∧ Tells kept r outcome t.result

/-- A notification calls the method, and is not answered where the method ends quietly. -/
def Notifies (quiet : Except AnyRpcException Value → Prop) (method : Bytes) (g : Generation)
    (s : Server ω) (beyond : UInt8) : Prop :=
  ∃ g', protocol.generateRequest method true g = .ok true g' ∧ g'.params = g.params ∧
    ∃ params, params.contents = g.params.contents ∧
      ∀ r world, manager.Ends (cString method) params s.world r world → quiet r →
        protocol.rpcHandler manager g'.os beyond s =
          .ok false { s with world, executed := s.executed ++ [(cString method, params)] }

end CallProtocol

/-! ## The parts of a call -/

/-- A request that is written is what the stream holds, and the parameters are back. -/
theorem Generation.send_of_traverse {σ : Type} [Handler σ] (writer : Bytes → σ) (os : σ → Bytes)
    {ref : Exec Value ℕ} {s : Generation} {w : σ} {i : ℕ} {params : Value}
    (htraverse : Value.traverse s.request (writer s.os) = .ok () w)
    (href : ref s.request = .ok i s.request) (hchild : s.request.child? i = some params) :
    ∃ s', send writer os ref s = .ok true s' ∧ s'.os = os w ∧ s'.params = params ∧
      s'.requestId = s.requestId := by
  have hwritten : Generation.traverse writer os s = .ok () { s with os := os w } := by
    rw [Generation.traverse, htraverse]
  have honRequest : onRequest ref { s with os := os w } = .ok i { s with os := os w } := by
    rw [onRequest, href]
  have hrestore : restoreParams ref { s with os := os w } = .ok () { s with
      os := os w, params, request := s.request.setChild i .null } := by
    rw [restoreParams, bind_of_ok honRequest, bind_of_ok (get_apply _), hchild]
    rfl
  refine ⟨{ s with os := os w, params, request := s.request.setChild i .null }, ?_, rfl, rfl, rfl⟩
  rw [send, bind_of_ok hwritten, bind_of_ok hrestore]
  rfl

/-- A test that is allowed compares what the getter returns. -/
theorem ClientHandler.rejected_of_get {allowed : Bool} {get : Exec Responding ℤ} {z expected : ℤ}
    {t : Responding} (hallowed : allowed = true) (hget : get t = .ok z t) :
    rejected allowed get expected t = .ok (decide (z ≠ expected)) t := by
  subst hallowed
  rw [rejected, if_pos rfl, bind_of_ok hget]
  rfl

/-- A response without a parse error is handed to the body. -/
theorem ClientHandler.process_of_ok {τ : Type} {reader : Reader.Parsed Document τ}
    {body : Exec Responding ProcessResponseEnum} {outcome : ProcessResponseEnum} {t t' : Responding}
    (hok : reader.hasParseError = false)
    (hbody : body { t with message := reader.handler.value } = .ok outcome t') :
    process (.ok reader) body t = .ok outcome t' := by
  refine catching_of_ok ?_
  rw [hok, if_neg Bool.false_ne_true, bind_of_ok (modify_apply _ t)]
  exact hbody

/-! ## Values -/

/-- An unsigned number passes its test. -/
theorem Value.isUint_ofUint (u : BitVec 32) : (Value.number (.ofUint u)).isUint = true := by
  have hlt := u.isLt
  rw [Number.ofUint_eq]
  refine (Number.isUint_ofInteger u.toNat).trans (decide_eq_true ?_)
  constructor <;> omega

/-- An unsigned number is what its getter returns. -/
theorem Value.getUint_ofUint {σ : Type} (u : BitVec 32) (s : σ) :
    (Value.number (.ofUint u)).getUint s = .ok (u.toNat : ℤ) s := by
  have hlt := u.isLt
  have hfits : IntegerType.unsigned.Fits (u.toNat : ℤ) := by constructor <;> omega
  have htest := Value.isUint_ofUint u
  rw [Number.ofUint_eq] at htest ⊢
  exact IntegerType.getter_of_test hfits htest s

/-- A signed number passes its test. -/
theorem Value.isInt_ofInt (i : BitVec 32) : (Value.number (.ofInt i)).isInt = true := by
  have hlo := i.le_toInt
  have hhi := i.toInt_lt
  rw [Number.ofInt_eq]
  refine (Number.isInt_ofInteger i.toInt).trans (decide_eq_true ?_)
  constructor <;> omega

/-- A signed number is what its getter returns. -/
theorem Value.getInt_ofInt {σ : Type} (i : BitVec 32) (s : σ) :
    (Value.number (.ofInt i)).getInt s = .ok i.toInt s := by
  have hlo := i.le_toInt
  have hhi := i.toInt_lt
  have hfits : IntegerType.int.Fits i.toInt := by constructor <;> omega
  have htest := Value.isInt_ofInt i
  rw [Number.ofInt_eq] at htest ⊢
  exact IntegerType.getter_of_test hfits htest s

namespace Value

variable {v : Value}

/-- A value with the contents of an array is an array. -/
theorem eq_array_of_contents {es : List Value} {c : ℕ} (h : v.contents = (array es c).contents) :
    ∃ vs c', v = array vs c' ∧ vs.map contents = es.map contents := by
  cases v with
  | array vs c' =>
    rw [contents_array, contents_array] at h
    exact ⟨vs, c', rfl, (array.inj h).1⟩
  | map ms c' => simp at h
  | _ => simp [contents] at h

/-- A value with the contents of a map is a map. -/
theorem eq_map_of_contents {ms : List (Bytes × Value)} {c : ℕ}
    (h : v.contents = (map ms c).contents) :
    ∃ ns c', v = map ns c' ∧
      ns.map (fun m => (m.1, m.2.contents)) = ms.map fun m => (m.1, m.2.contents) := by
  cases v with
  | map ns c' =>
    rw [contents_map, contents_map] at h
    exact ⟨ns, c', rfl, (map.inj h).1⟩
  | array vs c' => simp at h
  | _ => simp [contents] at h

/-- The elements of an array of four. -/
theorem eq_four_of_contents {a b c d : Value} {n : ℕ}
    (h : v.contents = (array [a, b, c, d] n).contents) :
    ∃ a' b' c' d' n', v = array [a', b', c', d'] n' ∧ a'.contents = a.contents ∧
      b'.contents = b.contents ∧ c'.contents = c.contents ∧ d'.contents = d.contents := by
  obtain ⟨es, n', rfl, hmap⟩ := eq_array_of_contents h
  obtain ⟨a', es, rfl, ha, hmap⟩ := List.map_eq_cons_iff.mp hmap
  obtain ⟨b', es, rfl, hb, hmap⟩ := List.map_eq_cons_iff.mp hmap
  obtain ⟨c', es, rfl, hc, hmap⟩ := List.map_eq_cons_iff.mp hmap
  obtain ⟨d', es, rfl, hd, hmap⟩ := List.map_eq_cons_iff.mp hmap
  obtain rfl := List.map_eq_nil_iff.mp hmap
  exact ⟨a', b', c', d', n', rfl, ha, hb, hc, hd⟩

/-- The elements of an array of three. -/
theorem eq_three_of_contents {a b c : Value} {n : ℕ}
    (h : v.contents = (array [a, b, c] n).contents) :
    ∃ a' b' c' n', v = array [a', b', c'] n' ∧ a'.contents = a.contents ∧
      b'.contents = b.contents ∧ c'.contents = c.contents := by
  obtain ⟨es, n', rfl, hmap⟩ := eq_array_of_contents h
  obtain ⟨a', es, rfl, ha, hmap⟩ := List.map_eq_cons_iff.mp hmap
  obtain ⟨b', es, rfl, hb, hmap⟩ := List.map_eq_cons_iff.mp hmap
  obtain ⟨c', es, rfl, hc, hmap⟩ := List.map_eq_cons_iff.mp hmap
  obtain rfl := List.map_eq_nil_iff.mp hmap
  exact ⟨a', b', c', n', rfl, ha, hb, hc⟩

/-- The members of a map are those of its contents, one by one. -/
theorem eq_members_of_contents {ms : List (Bytes × Value)} {c : ℕ}
    (h : v.contents = (map ms c).contents) :
    ∃ ns c', v = map ns c' ∧
      List.Forall₂ (fun n m => n.1 = m.1 ∧ n.2.contents = m.2.contents) ns ms := by
  obtain ⟨ns, c', rfl, hmap⟩ := eq_map_of_contents h
  refine ⟨ns, c', rfl, ?_⟩
  rw [← List.forall₂_eq_eq_eq, List.forall₂_map_left_iff, List.forall₂_map_right_iff] at hmap
  exact hmap.imp fun n m hnm => Prod.mk.inj hnm

end Value

end AnyRpc
