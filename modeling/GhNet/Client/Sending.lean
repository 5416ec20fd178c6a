import GhNet.Client.CmdPacket
import GhNet.Infra.Framing

/-!
# `TcpCli.Send`

The other direction of the client's connection. A datagram goes to the socket behind its length;
nothing is sent for an empty one, and one that is too long for the length is not sent at all.
-/

namespace GhNet.Client

open GhNet

/-- What a `TcpCli` has given to its socket, and the datagrams in it. -/
structure Output where
  written : Bytes
  datagrams : List Bytes

namespace Output

/-- Nothing was sent yet. -/
def new : Output := ⟨[], []⟩

/-- `Send(byte[])`. `none` is an exception: there is no connection, or `Convert.ToUInt16` fails. -/
def send (isConnected : Bool) (datagram : Bytes) (o : Output) : Option Output :=
  if datagram.length = 0 then some o
  else if isConnected = false then none
  else if 65535 < datagram.length then none
  else
    let buff := leBytes 2 (hostToNetworkOrder datagram.length) ++ datagram
    some ⟨o.written ++ buff, o.datagrams ++ [datagram]⟩

/-- A datagram that was sent. -/
def Whole (datagram : Bytes) : Prop := 0 < datagram.length ∧ datagram.length < 65536

/-- The socket was given the datagrams, each in a frame. -/
structure Framed (o : Output) : Prop where
  written : o.written = o.datagrams.flatMap be16Frame
  whole : ∀ datagram ∈ o.datagrams, Whole datagram

variable {o o' : Output} {isConnected : Bool} {datagram : Bytes}

theorem Framed.new : Framed Output.new := ⟨rfl, nofun⟩

/-- The length goes out with its high byte first. -/
theorem leBytes_hostToNetworkOrder (v : Nat) : leBytes 2 (hostToNetworkOrder v) = be16 v := by
  rw [hostToNetworkOrder_eq, hostToNetwork, leBytes_byteSwap, be16_eq]

/-- What `Send` does when it returns. -/
theorem send_cases (h : o.send isConnected datagram = some o') :
    (datagram = [] ∧ o' = o) ∨ (Whole datagram ∧ isConnected = true ∧
      o' = ⟨o.written ++ be16Frame datagram, o.datagrams ++ [datagram]⟩) := by
  unfold send at h
  split at h
  · next hlen => exact Or.inl ⟨List.eq_nil_of_length_eq_zero hlen, (Option.some.inj h).symm⟩
  · next hlen =>
    split at h
    · cases h
    · next hcon =>
      split at h
      · cases h
      · next hle =>
        obtain rfl := Option.some.inj h
        rw [leBytes_hostToNetworkOrder]
        refine Or.inr ⟨⟨Nat.pos_of_ne_zero hlen, by omega⟩, ?_, rfl⟩
        cases isConnected with
        | false => exact absurd rfl hcon
        | true => rfl

/-- A datagram that fits is sent. -/
theorem send_whole (h : Whole datagram) (o : Output) : o.send true datagram
    = some ⟨o.written ++ be16Frame datagram, o.datagrams ++ [datagram]⟩ := by
  have hlong := h.2
  rw [send, if_neg (Nat.ne_of_gt h.1), if_neg (by decide), if_neg (by omega),
    leBytes_hostToNetworkOrder]
  rfl

theorem Framed.send (ho : o.Framed) (h : o.send isConnected datagram = some o') : o'.Framed := by
  rcases send_cases h with ⟨-, rfl⟩ | ⟨hwhole, -, rfl⟩
  · exact ho
  · refine ⟨?_, fun d hd => ?_⟩
    · rw [ho.written, List.flatMap_append, List.flatMap_singleton]
    · rcases List.mem_append.mp hd with hd | hd
      · exact ho.whole d hd
      · exact List.mem_singleton.mp hd ▸ hwhole

/-- Several calls of `Send`: what was written stays. -/
theorem Framed.sends {datagrams : List Bytes} (ho : o.Framed)
    (h : datagrams.foldlM (fun (o : Output) d => o.send isConnected d) o = some o') :
    o'.Framed ∧ o.written <+: o'.written := by
  induction datagrams generalizing o with
  | nil =>
    obtain rfl := Option.some.inj h
    exact ⟨ho, List.prefix_rfl⟩
  | cons d datagrams ih =>
    rw [List.foldlM_cons] at h
    obtain ⟨o₁, h1, h⟩ := Option.bind_eq_some_iff.mp h
    obtain ⟨hframed, hmore⟩ := ih (ho.send h1) h
    refine ⟨hframed, List.IsPrefix.trans ?_ hmore⟩
    rcases send_cases h1 with ⟨-, rfl⟩ | ⟨-, -, rfl⟩
    · exact List.prefix_rfl
    · exact List.prefix_append _ _

/-- **The frames of what was written are the datagrams.** -/
theorem Framed.frames (ho : o.Framed) : be16Format.frames o.written = o.datagrams := by
  rw [ho.written, frames_flatMap fun d hd => (ho.whole d hd).2]

/-- Datagrams that fit, one after the other. -/
theorem sends_whole {datagrams : List Bytes} (h : ∀ d ∈ datagrams, Whole d) (o : Output) :
    datagrams.foldlM (fun o d => o.send true d) o
      = some ⟨o.written ++ datagrams.flatMap be16Frame, o.datagrams ++ datagrams⟩ := by
  induction datagrams generalizing o with
  | nil => rw [List.flatMap_nil, List.append_nil, List.append_nil]; rfl
  | cons d datagrams ih =>
    rw [List.foldlM_cons, send_whole (h d List.mem_cons_self) o, Option.bind_eq_bind,
      Option.bind_some, ih fun e he => h e (List.mem_cons_of_mem _ he), List.flatMap_cons,
      List.append_assoc, List.append_assoc]
    rfl

end Output

end GhNet.Client
