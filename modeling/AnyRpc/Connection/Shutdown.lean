import AnyRpc.Connection.Http
import AnyRpc.Connection.Tcp

/-! # The end of a stream

`Process` looks at the buffer only behind another call of `Receive`. When this reports the end of the
stream, `ReadHeader` gives up, although the buffer may hold requests that are complete. -/

namespace AnyRpc

open Library ServerConnection

variable {ρ ω ε : Type}

/-- The connection of a delivery behind which the peer shuts down its sending side. -/
def Delivery.shutDown (d : Delivery) (stream : Bytes) (derived : ρ) (world : ω) :
    ServerConnection ρ ω ε :=
  ServerConnection.accepted d.buffer d.heap { attempts := d.sends }
    ⟨stream, d.attempts ++ [{ result := .closed }]⟩ derived world

/-- A peer that shuts down its sending side has its requests executed, as far as they are received in
full, exactly when they are received slowly enough: no last results of `Receive` complete more requests
than there are results. -/
theorem shutDown_executes_iff [IntOverflow] {ω : Type} (handler : RpcHandler ω)
    (handlers : List (RpcContentHandler ω)) (world : ω) (stream : Bytes) (d : Delivery)
    (chunks : List Bytes) :
    wp (serve (TcpConnection.process handler) (d.calls ++ [true]))
        (fun _ s => s.received = chunks →
          (s.executed = TcpConnection.requests handler world chunks.flatten ↔
            Paced (TcpConnection.requests handler world) chunks))
        Outstanding (d.shutDown stream {} world) ∧
      wp (serve HttpConnection.process (d.calls ++ [true]))
        (fun _ s => s.received = chunks →
          (s.executed = HttpConnection.requests handlers world chunks.flatten ↔
            Paced (HttpConnection.requests handlers world) chunks))
        Outstanding (d.shutDown stream ⟨.initial, handlers⟩ world) := by
  constructor
  · refine wp_mono (serve_follows (TcpConnection.readHeader_spec handler)
      (TcpConnection.executeRequest_spec handler) d.calls
      (inv_accepted d.length_buffer d.heap d.accepts _ rfl world)) ?_ fun _ _ h => h.outstanding
    rintro _ s ⟨es, rest, hquiet⟩ rfl
    exact hquiet.executed_eq_iff
  · refine wp_mono (serve_follows HttpConnection.readHeader_spec HttpConnection.executeRequest_spec
      d.calls (inv_accepted d.length_buffer d.heap d.accepts _
        (HttpConnection.service.seen_initializeData ⟨.initial, handlers⟩ []) world)) ?_
      fun _ _ h => h.outstanding
    rintro _ s ⟨es, rest, hquiet⟩ rfl
    exact hquiet.executed_eq_iff

/-- Two requests arrive at once, and the peer shuts down its sending side: the second one is dropped. -/
theorem shutDown_drops_request :
    let _ := IntOverflow.truncate
    let handler : RpcHandler Unit := fun request world => ⟨request, [], false, world, rfl⟩
    let stream := TcpClient.frame (ascii "a") ++ TcpClient.frame (ascii "b")
    let d : Delivery := {
      buffer := List.replicate (maxBufferLength + 1) 0
      attempts := [⟨.arrived 100, 0, true⟩]
      sends := []
      calls := []
      length_buffer := List.length_replicate
      arrives := by simp
      accepts := by simp }
    wp (serve (TcpConnection.process handler) (d.calls ++ [true]))
      (fun _ s => s.received = [stream] ∧
        TcpConnection.requests handler () stream = [ascii "a", ascii "b"] ∧
        s.connectionState = .closeConnection ∧ s.executed = [ascii "a"])
      (fun _ _ => False) (d.shutDown stream {} ()) := by
  decide +kernel

end AnyRpc
