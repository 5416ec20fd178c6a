import GhNet.Iocp.Flow
import GhNet.Lobby.Outgoing
import GhNet.Server.Frames
import GhNet.Server.Registry

/-!
# What the server does with messages

For every connection at once, over whole runs: what is handed to the lobby are the first frames of
what was received, and what the lobby has sent to a connection is in the output of the connection
as long as the connection is open, frame by frame. A connection that is closed has a part of both.

What decides which connection a message is for is its serial. The service gives each of them to one
slot, as long as the counter does not wrap around.
-/

namespace GhNet.Server

open GhNet GhNet.Net

/-! ## Sending -/

section Sends

open Iocp Iocp.Service

variable {s s' : Service} {i n : Nat}

/-- The messages for the connection `(i, n)`. -/
def mailFor (i n : Nat) (sent : List Lobby.Sent) : List Lobby.Sent :=
  sent.filter fun m => m.index = i ∧ m.serial = n

/-- What the service is to send on the connection `(i, n)`. -/
def mailBytes (i n : Nat) (sent : List Lobby.Sent) : Bytes :=
  (mailFor i n sent).flatMap Lobby.Sent.bytes

theorem mailBytes_append (i n : Nat) (l m : List Lobby.Sent) :
    mailBytes i n (l ++ m) = mailBytes i n l ++ mailBytes i n m := by
  rw [mailBytes, mailFor, List.filter_append, List.flatMap_append]
  rfl

/-- `send` records its bytes if the connection is open, even where it throws. -/
theorem sentBytes_send {j m : Nat} {buf : Bytes} {accepted : Bool}
    (hi : s.Live i n → i < MAX_PEER_NUM) (h : Sending s j m buf accepted s') :
    sentBytes i n s'.log = sentBytes i n s.log ++
      if s.Live i n ∧ j = i ∧ m = n then buf else [] := by
  have hrecord : s.Live j m → s'.log = s.log ++ [.sent j m buf] → sentBytes i n s'.log
      = sentBytes i n s.log ++ if s.Live i n ∧ j = i ∧ m = n then buf else [] := by
    intro hl hlog
    rw [hlog, sentBytes_append]
    have hsent : sentBytes i n [.sent j m buf] = if j = i ∧ m = n then buf else [] :=
      List.append_nil _
    rw [hsent]
    by_cases hown : j = i ∧ m = n
    · obtain ⟨rfl, rfl⟩ := hown
      rw [if_pos ⟨rfl, rfl⟩, if_pos ⟨hl, rfl, rfl⟩]
    · rw [if_neg hown, if_neg fun h => hown h.2]
  cases h with
  | outOfRange hge e =>
    rw [if_neg, List.append_nil]
    · rfl
    · rintro ⟨hl, rfl, -⟩
      exact absurd (hi hl) (Nat.not_lt.mpr hge)
  | stale hdead =>
    rw [if_neg, List.append_nil]
    rintro ⟨hl, rfl, rfl⟩
    exact hdead hl
  | failed hl | queued hl | signalled hl | refused hl => exact hrecord hl rfl

/-- **What the lobby sends to an open connection is in its output.** -/
theorem sentBytes_sends {posts : Nat → Bool} {sent : List Lobby.Sent}
    (hi : s.Live i n → i < MAX_PEER_NUM)
    (h : exec Iocp.step s (Program.sends posts sent) = some s') :
    sentBytes i n s'.log = sentBytes i n s.log ++
      if s.Live i n then mailBytes i n sent else [] := by
  induction sent generalizing posts s with
  | nil =>
    obtain rfl := Option.some.inj h
    rw [show mailBytes i n [] = [] from rfl, ite_self, List.append_nil]
  | cons m sent ih =>
    rw [Program.sends, List.mapIdx_cons] at h
    cases hs : Iocp.step s (.send m.index m.serial m.bytes (posts 0)) with
    | none => rw [exec, hs] at h; cases h
    | some t =>
      rw [exec_cons hs] at h
      obtain hsend : Sending s m.index m.serial m.bytes (posts 0) t := by
        cases stepping hs with
        | send _ hsend => exact hsend
      have hlive := (Standing.sending hsend).live i n
      have hrest := @ih t (fun k => posts (k + 1)) (fun hl => hi (hlive.mp hl)) h
      rw [hrest, sentBytes_send hi hsend, List.append_assoc]
      congr 1
      by_cases hl : s.Live i n
      · rw [if_pos hl, if_pos (hlive.mpr hl)]
        by_cases hown : m.index = i ∧ m.serial = n
        · rw [if_pos ⟨hl, hown⟩, mailBytes, mailBytes, mailFor, mailFor,
            List.filter_cons_of_pos (by simpa using hown)]
          rfl
        · rw [if_neg fun h => hown h.2, List.nil_append, mailBytes, mailBytes, mailFor, mailFor,
            List.filter_cons_of_neg (by simpa using hown)]
      · rw [if_neg hl, if_neg fun h => hl h.1, if_neg fun h => hl (hlive.mp h)]
        rfl

/-- The output of every connection is in order. -/
def Flows (s : Service) : Prop := ∀ i n, Flowing i n s

theorem Flows.io {a : Action} (h : Flows s) (hsane : Sane s) (ha : Served s a)
    (hclean : a.registers = true → Clean s s') (hs : Iocp.step s a = some s') : Flows s' :=
  fun i n => (h i n).step hsane.alive.index_lt hsane.flat ha hclean hs

/-- The calls of `send`, from where no connection is being closed. -/
theorem Flows.sends {posts : Nat → Bool} {sent : List Lobby.Sent} (h : Flows s)
    (hopen : ∀ i n, .onDisCon i n ∉ s.stack)
    (hrun : exec Iocp.step s (Program.sends posts sent) = some s') : Flows s' := by
  refine (Program.sends_induction
    (R := fun s s' => (∀ i n, .onDisCon i n ∉ s.stack) → Flows s → Flows s' ∧ s'.stack = s.stack)
    (fun s _ h => ⟨h, rfl⟩) (fun s t u h1 h2 hopen h => ?_) (fun s t j m buf accepted hs hopen h => ?_)
    hrun hopen h).1
  · obtain ⟨ht, hstack⟩ := h1 hopen h
    obtain ⟨hu, hstack'⟩ := h2 (hstack ▸ hopen) ht
    exact ⟨hu, hstack'.trans hstack⟩
  · refine ⟨fun i n => (h i n).send (hopen i n) hs, ?_⟩
    cases stepping hs with
    | send _ hsend => exact hsend.stack_eq

end Sends

/-! ## Parts of steps -/

section Parts

open Iocp

variable {sv sv' : Program}

/-- Which call of the lobby is made where. -/
inductive Calling : List Frame → Lobby.Call → Prop
  | onCon (i n : Nat) (rest : List Frame) : Calling (.onCon i n :: rest) (.onCon i n)
  | onDisCon (i n : Nat) (rest : List Frame) : Calling (.onDisCon i n :: rest) (.onDisCon n)
  | onRead (i n : Nat) (rest : List Frame) (body : Bytes) :
      Calling (.onRead i n :: rest) (.onRead n body)
  | process : Calling [] .process

/-- The slot of a call is one that a connection is in. -/
theorem Calling.slotted {s : Service} {c : Lobby.Call} (h : Sane s) (hc : Calling s.stack c) :
    c.Slotted := by
  generalize hst : s.stack = stack at hc
  cases hc with
  | onCon i n rest =>
    rcases h.calling (.onCon i n) (hst ▸ List.mem_cons_self) with ⟨r, hr⟩ | hl
    · cases hr
    · exact h.alive.index_lt hl
  | onDisCon | onRead | process => trivial

/-- A completion leaves what it has brought in the history only. -/
theorem receive_fields (r : Request) (c : Completion) (sv : Program) :
    (Program.receive r c sv).io_service = sv.io_service ∧
      (Program.receive r c sv).lobby = sv.lobby ∧ (Program.receive r c sv).handed = sv.handed ∧
      ∃ ps, (Program.receive r c sv).received = sv.received ++ ps ∧
        ∀ p ∈ ps, p.index = r.index ∧ p.serial = r.serial := by
  unfold Program.receive
  split
  · refine ⟨rfl, rfl, rfl, _, rfl, fun p hp => ?_⟩
    rw [List.mem_singleton.mp hp]
    exact ⟨rfl, rfl⟩
  · exact ⟨rfl, rfl, rfl, [], (List.append_nil _).symm, nofun⟩

/-- What the steps of the program are made of, but for a new socket. -/
inductive Part (sv : Program) : Program → Prop
  | dequeue {r : Request} {c : Completion} {accepted : Bool} {s : Service}
      (hs : Iocp.step sv.io_service (.dequeue r c accepted) = some s) :
      Part sv (Program.receive r c { sv with io_service := s })
  | finish {s : Service} (hs : Iocp.step sv.io_service .finish = some s) :
      Part sv { sv with io_service := s }
  | readMove {len : Nat} {s : Service} (hs : Iocp.step sv.io_service (.readMove len) = some s) :
      Part sv { sv with io_service := s }
  | return_ {accepted : Bool} {s : Service}
      (hs : Iocp.step sv.io_service (.return_ 0 accepted) = some s) :
      Part sv { sv with io_service := s }
  | call {c : Lobby.Call} {env : Lobby.Env} {posts : Nat → Bool} {sv' : Program}
      (hc : Calling sv.io_service.stack c) (h : sv.call c env posts = some sv') : Part sv sv'
  | hand {i n : Nat} {rest : List Frame} (hst : sv.io_service.stack = .onRead i n :: rest)
      (body : Bytes) : Part sv (sv.hand ⟨i, n, body⟩)

/-- Parts one after the other, each from a service that is sane. -/
inductive Parts (sv : Program) : Program → Prop
  | done : Parts sv sv
  | next {t u : Program} (h : Parts sv t) (hsane : Sane t.io_service) (hp : Part t u) : Parts sv u

theorem Parts.trans {t : Program} (h : Parts sv t) (h' : Parts t sv') : Parts sv sv' := by
  induction h' with
  | done => exact h
  | next _ hsane hp ih => exact .next ih hsane hp

/-- **What every part keeps, the step keeps.** -/
theorem Parts.invariant {P : Program → Prop} (h : Parts sv sv') (h0 : P sv)
    (hpart : ∀ t u, Sane t.io_service → P t → Part t u → P u) : P sv' := by
  induction h with
  | done => exact h0
  | next _ hsane hp ih => exact hpart _ _ hsane ih hp

theorem Parts.one (hsane : Sane sv.io_service) (h : Part sv sv') : Parts sv sv' :=
  .next .done hsane h

/-- A message: the call and what takes it off the buffer. -/
theorem message_parts {i n : Nat} {rest : List Frame} {env : Lobby.Env} {posts : Nat → Bool}
    {body : Bytes} (h : Wired sv.io_service sv.lobby.board)
    (hst : sv.io_service.stack = .onRead i n :: rest)
    (hm : NetEvent.message i n env posts sv body = some sv') : Parts sv sv' := by
  obtain ⟨sv₁, hcall, hio⟩ := Option.bind_eq_some_iff.mp hm
  obtain ⟨s, hs, rfl⟩ := Option.map_eq_some_iff.mp hio
  have hhand : Parts sv (sv.hand ⟨i, n, body⟩) := .one h.sane (.hand hst body)
  have hsane : Sane (sv.hand ⟨i, n, body⟩).io_service := h.sane
  have hcalled : Parts sv sv₁ :=
    hhand.next hsane (.call (hst.symm ▸ .onRead i n rest body) hcall)
  exact hcalled.next (call_spec hsane hcall).1 (.readMove hs)

theorem messages_parts {i n : Nat} {rest : List Frame} {env : Lobby.Env} {posts : Nat → Bool}
    {bodies : List Bytes} (h : Wired sv.io_service sv.lobby.board)
    (hst : sv.io_service.stack = .onRead i n :: rest)
    (hm : bodies.foldlM (NetEvent.message i n env posts) sv = some sv') : Parts sv sv' := by
  induction bodies generalizing sv with
  | nil =>
    obtain rfl := Option.some.inj hm
    exact .done
  | cons body bodies ih =>
    rw [List.foldlM_cons] at hm
    obtain ⟨sv₁, h1, hm⟩ := Option.bind_eq_some_iff.mp hm
    have h₁ := h.message hst h1
    exact (message_parts h hst h1).trans (ih h₁.wired (h₁.stack.trans hst) hm)

/-- **A callback is made of parts.** -/
theorem callback_parts {env : Lobby.Env} {posts : Nat → Bool} {accepted : Bool}
    (h : Wired sv.io_service sv.lobby.board)
    (hc : Server.callback env posts accepted sv = some sv') : Parts sv sv' := by
  have hreturn : ∀ {sv₁ : Program}, Parts sv sv₁ → Sane sv₁.io_service →
      sv₁.io (.return_ 0 accepted) = some sv' → Parts sv sv' := by
    intro sv₁ hparts hsane hio
    obtain ⟨s, hs, rfl⟩ := Option.map_eq_some_iff.mp hio
    exact hparts.next hsane (.return_ hs)
  unfold Server.callback at hc
  split at hc
  · next i n rest hst =>
    obtain ⟨sv₁, hcall, hio⟩ := Option.bind_eq_some_iff.mp hc
    exact hreturn (.one h.sane (.call (hst.symm ▸ .onCon i n rest) hcall))
      (call_spec h.sane hcall).1 hio
  · next i n rest hst =>
    obtain ⟨sv₁, hcall, hio⟩ := Option.bind_eq_some_iff.mp hc
    exact hreturn (.one h.sane (.call (hst.symm ▸ .onDisCon i n rest) hcall))
      (call_spec h.sane hcall).1 hio
  · next i n rest hst =>
    obtain ⟨⟨ret, sv₁⟩, hread, hio⟩ := Option.bind_eq_some_iff.mp hc
    unfold NetEvent.onRead at hread
    split at hread
    · cases hread
    · next ret' c hret =>
      obtain ⟨sv₂, hmessages, heq⟩ := Option.map_eq_some_iff.mp hread
      obtain ⟨rfl, rfl⟩ := Prod.mk.inj heq
      obtain rfl := Net.onRead_ret hret
      exact hreturn (messages_parts h hst hmessages) (h.messages hst hmessages).wired.sane hio
  · cases hc

/-- **Every step but that of a new socket is made of parts.** -/
theorem step_parts {a : Input} (h : Wired sv.io_service sv.lobby.board) (ha : a.accepts = false)
    (hs : Server.step sv a = some sv') : Parts sv sv' := by
  cases a with
  | accept sd loc rem bound => cases ha
  | dequeue r c accepted =>
    obtain ⟨sv₁, hstep, rfl⟩ := Option.map_eq_some_iff.mp hs
    obtain ⟨s, hio, rfl⟩ := Option.map_eq_some_iff.mp hstep
    exact .one h.sane (.dequeue hio)
  | finish =>
    obtain ⟨s, hio, rfl⟩ := Option.map_eq_some_iff.mp hs
    exact .one h.sane (.finish hio)
  | callback env posts accepted => exact callback_parts h hs
  | process env posts =>
    simp only [Server.step, Option.ite_none_right_eq_some] at hs
    exact .one h.sane (.call (hs.1.2.symm ▸ .process) hs.2)

/-- No connection comes. -/
theorem Part.live (h : Part sv sv') (hsane : Sane sv.io_service) {i n : Nat}
    (hl : sv'.io_service.Live i n) : sv.io_service.Live i n := by
  have hio : ∀ {a : Action} {s : Service}, a.registers = false →
      Iocp.step sv.io_service a = some s → s.Live i n → sv.io_service.Live i n := by
    intro a s ha hs hl
    rcases Standing.stable.step (stepping hs) with hst | ⟨hreg, -⟩ | ⟨j, m, rest, _, _, _, _, rfl⟩
    · exact (hst.live i n).mp hl
    · rw [ha] at hreg
      cases hreg
    · exact ((closePeerEnd_live (sv.io_service.popped rest) j i n).mp hl).2
  cases h with
  | @dequeue r c accepted s hs =>
    refine hio rfl hs ?_
    rwa [(receive_fields r c _).1] at hl
  | finish hs | readMove hs | return_ hs => exact hio rfl hs hl
  | call _ hcall => exact ((call_spec hsane hcall).2.1.live i n).mp hl
  | hand _ _ => exact hl

end Parts

/-! ## Whose messages there are -/

/-- Messages and pieces are those of connections that were announced. -/
structure Known (sv : Program) : Prop where
  service : Iocp.Registered sv.io_service
  handles : ∀ q ∈ sv.lobby.handles, sv.io_service.Seen q.1 q.2
  mail : ∀ m ∈ sv.lobby.sent, Lobby.Frame m.bytes ∧ (m.index, m.serial) ∈ sv.lobby.handles
  received : ∀ p ∈ sv.received, sv.io_service.Seen p.index p.serial
  handed : ∀ p ∈ sv.handed, sv.io_service.Seen p.index p.serial

namespace Known

open Iocp

variable {sv sv' : Program}

theorem new : Known Program.new := ⟨.new, nofun, nofun, nofun, nofun⟩

/-- The service has taken steps. -/
theorem served {s : Service} (h : Known sv) (hs : Registered s)
    (hseen : ∀ {i n}, sv.io_service.Seen i n → s.Seen i n) :
    Known { sv with io_service := s } :=
  ⟨hs, fun q hq => hseen (h.handles q hq), h.mail, fun p hp => hseen (h.received p hp),
    fun p hp => hseen (h.handed p hp)⟩

theorem io {a : Action} {s : Service} (h : Known sv)
    (hser : a.registers = true → sv.io_service.m_serial + 1 < 2 ^ 64)
    (hs : Iocp.step sv.io_service a = some s) : Known { sv with io_service := s } :=
  h.served (h.service.step (stepping hs) hser) (stepping hs).seen

/-- The calls of `send` announce nobody. -/
theorem sends_seen {posts : Nat → Bool} {sent : List Lobby.Sent} {s s' : Service}
    (h : Registered s) (hrun : exec Iocp.step s (Program.sends posts sent) = some s') :
    Registered s' ∧ ∀ i n, s'.Seen i n ↔ s.Seen i n := by
  refine Program.sends_induction
    (R := fun s s' => Registered s → Registered s' ∧ ∀ i n, s'.Seen i n ↔ s.Seen i n)
    (fun s h => ⟨h, fun _ _ => Iff.rfl⟩) (fun s t u h1 h2 h => ?_)
    (fun s t i n buf accepted hs h => ?_) hrun h
  · obtain ⟨ht, hseen⟩ := h1 h
    obtain ⟨hu, hseen'⟩ := h2 ht
    exact ⟨hu, fun i n => (hseen' i n).trans (hseen i n)⟩
  · refine ⟨h.step (stepping hs) (by nofun), h.seen_iff (stepping hs) fun j m hl => ?_⟩
    cases stepping hs with
    | send _ hsend => exact ((Standing.sending hsend).live j m).mp hl

/-- Who is called back is there. -/
theorem called (h : Known sv) (hsane : Sane sv.io_service) {f : Iocp.Frame}
    (hf : f ∈ sv.io_service.stack) (hcall : ∀ r, f ≠ .tick r) :
    sv.io_service.Seen f.connection.1 f.connection.2 := by
  rcases hsane.calling f hf with ⟨r, rfl⟩ | hl
  · exact absurd rfl (hcall r)
  · exact h.service.covered.live hl

/-- A call of the lobby. -/
theorem call {c : Lobby.Call} {env : Lobby.Env} {posts : Nat → Bool} (h : Known sv)
    (hsane : Sane sv.io_service) (hc : Calling sv.io_service.stack c)
    (hcall : sv.call c env posts = some sv') : Known sv' := by
  obtain ⟨lobby, hlobby, hcall⟩ := Option.bind_eq_some_iff.mp hcall
  obtain ⟨s, hs, hcall⟩ := Option.bind_eq_some_iff.mp hcall
  obtain rfl := Option.some.inj hcall
  have hboth : Known { sv with lobby := lobby } := by
    by_cases hjoin : ∃ i n, c = .onCon i n
    · obtain ⟨i, n, rfl⟩ := hjoin
      obtain ⟨hhandles, hsent⟩ := Lobby.step_onCon hlobby
      refine ⟨h.service, fun q hq => ?_, fun m hm => ?_, h.received, h.handed⟩
      · replace hq : q ∈ sv.lobby.handles ++ [(i, n)] := hhandles ▸ hq
        rcases List.mem_append.mp hq with hq | hq
        · exact h.handles q hq
        · obtain rfl := List.mem_singleton.mp hq
          generalize hst : sv.io_service.stack = stack at hc
          cases hc with
          | onCon i n rest =>
            exact h.called (f := .onCon i n) hsane (hst ▸ List.mem_cons_self) nofun
      · obtain ⟨hframe, hmem⟩ := h.mail m (hsent ▸ hm)
        refine ⟨hframe, ?_⟩
        show _ ∈ lobby.handles
        rw [hhandles]
        exact List.mem_append_left _ hmem
    · have hmails := Lobby.step_mails (fun i n heq => hjoin ⟨i, n, heq⟩) hlobby
      obtain ⟨out, hsent, hout⟩ := hmails.sent
      refine ⟨h.service, fun q hq => h.handles q (hmails.handles ▸ hq), fun m hm => ?_,
        h.received, h.handed⟩
      show _ ∧ _ ∈ lobby.handles
      rw [hmails.handles]
      replace hm : m ∈ sv.lobby.sent ++ out := hsent ▸ hm
      rcases List.mem_append.mp hm with hm | hm
      · exact h.mail m hm
      · exact hout m hm
  obtain ⟨hreg, hseen⟩ := sends_seen h.service hs
  exact hboth.served hreg fun hn => (hseen _ _).mpr hn

/-- **Every part keeps it.** -/
theorem part (h : Known sv) (hsane : Sane sv.io_service) (hp : Part sv sv') : Known sv' := by
  cases hp with
  | @dequeue r c accepted s hs =>
    have h' := h.io (by nofun) hs
    obtain ⟨hio, hlobby, hhanded, ps, hrec, hps⟩ := receive_fields r c { sv with io_service := s }
    have hr : r ∈ sv.io_service.posted := by
      cases stepping hs with
      | dequeue _ hr _ _ => exact hr
    refine ⟨hio ▸ h'.service, ?_, ?_, fun p hp => ?_, ?_⟩
    · rw [hio, hlobby]
      exact h'.handles
    · rw [hlobby]
      exact h'.mail
    · rw [hio]
      rw [hrec] at hp
      rcases List.mem_append.mp hp with hp | hp
      · exact h'.received p hp
      · obtain ⟨hi, hn⟩ := hps p hp
        rw [hi, hn]
        exact (stepping hs).seen (h.service.covered.posted r hr)
    · rw [hio, hhanded]
      exact h'.handed
  | finish hs | readMove hs | return_ hs =>
    exact h.io (by nofun) hs
  | call hc hcall => exact h.call hsane hc hcall
  | @hand i n rest hst body =>
    refine ⟨h.service, h.handles, h.mail, h.received, fun p hp => ?_⟩
    rcases List.mem_append.mp hp with hp | hp
    · exact h.handed p hp
    · obtain rfl := List.mem_singleton.mp hp
      exact h.called (f := .onRead i n) hsane (hst ▸ List.mem_cons_self) nofun

end Known

/-! ## The outbox -/

section Outbox

open Iocp Iocp.Service

variable {sv sv' : Program} {i n : Nat}

/-- What the lobby has sent in a call is handed to the service. -/
theorem call_cases {c : Lobby.Call} {env : Lobby.Env} {posts : Nat → Bool}
    (h : sv.call c env posts = some sv') : ∃ lobby out s,
      Lobby.step sv.lobby (c, env) = some lobby ∧ lobby.sent = sv.lobby.sent ++ out ∧
        (∀ n, c = .onDisCon n → out = []) ∧
        exec Iocp.step sv.io_service (Program.sends posts out) = some s ∧
        sv' = { sv with io_service := s, lobby := lobby } := by
  obtain ⟨lobby, hlobby, h⟩ := Option.bind_eq_some_iff.mp h
  obtain ⟨s, hs, h⟩ := Option.bind_eq_some_iff.mp h
  obtain rfl := Option.some.inj h
  have hgo : ∀ out, lobby.sent = sv.lobby.sent ++ out → (∀ n, c = .onDisCon n → out = []) →
      ∃ lobby' out s', Lobby.step sv.lobby (c, env) = some lobby' ∧
        lobby'.sent = sv.lobby.sent ++ out ∧ (∀ n, c = .onDisCon n → out = []) ∧
        exec Iocp.step sv.io_service (Program.sends posts out) = some s' ∧
        ({ sv with io_service := s, lobby := lobby } : Program)
          = { sv with io_service := s', lobby := lobby' } := by
    intro out hout hdis
    rw [hout, List.drop_left] at hs
    exact ⟨lobby, out, s, hlobby, hout, hdis, hs, rfl⟩
  cases c with
  | onCon index serial =>
    obtain ⟨-, hsent⟩ := Lobby.step_onCon hlobby
    exact hgo [] (by rw [hsent, List.append_nil]) fun _ _ => rfl
  | onDisCon serial =>
    obtain ⟨-, hsent⟩ := Lobby.step_onDisCon hlobby
    exact hgo [] (by rw [hsent, List.append_nil]) fun _ _ => rfl
  | onRead serial body =>
    obtain ⟨out, hsent, -⟩ := (Lobby.step_mails (by nofun) hlobby).sent
    exact hgo out hsent (by nofun)
  | process =>
    obtain ⟨out, hsent, -⟩ := (Lobby.step_mails (by nofun) hlobby).sent
    exact hgo out hsent (by nofun)

/-- Only `onDisCon` is called where a connection is being closed. -/
theorem Calling.open_ {stack : List Iocp.Frame} {c : Lobby.Call} (hc : Calling stack c)
    (hflat : ∀ f ∈ stack.tail, ∃ r, f = .tick r) (hne : ∀ n, c ≠ .onDisCon n) (i n : Nat) :
    .onDisCon i n ∉ stack := by
  intro hm
  cases hc with
  | onDisCon _ m => exact hne m rfl
  | process => exact List.not_mem_nil hm
  | onCon | onRead =>
    rcases List.mem_cons.mp hm with hm | hm
    · cases hm
    · exact nomatch hflat _ hm

/-- The output of every connection is in order, and it is what the lobby has sent to it: the front,
and all of it as long as the connection is open. -/
structure Outbox (sv : Program) : Prop where
  flows : Flows sv.io_service
  mail : ∀ i n, sv.io_service.Live i n →
    sentBytes i n sv.io_service.log = mailBytes i n sv.lobby.sent
  front : ∀ i n, sentBytes i n sv.io_service.log <+: mailBytes i n sv.lobby.sent

theorem Outbox.new : Outbox Program.new where
  flows _ _ _ := ⟨⟨List.prefix_rfl, Nat.zero_le 1, fun _ hr => absurd hr List.not_mem_nil⟩,
    fun hcalm => absurd rfl hcalm.1.1⟩
  mail _ _ hl := absurd rfl hl.1
  front _ _ := List.prefix_rfl

/-- The service goes on without `send`. -/
theorem Outbox.io {a : Action} {s : Service} (h : Outbox sv) (hsane : Sane sv.io_service)
    (hs : Iocp.step sv.io_service a = some s) (hserved : Served sv.io_service a)
    (hreg : a.registers = false) (hsend : ∀ j m buf accepted, a ≠ .send j m buf accepted)
    (hlive : ∀ i n, s.Live i n → sv.io_service.Live i n) :
    Outbox { sv with io_service := s } := by
  have hsame : ∀ i n, sentBytes i n s.log = sentBytes i n sv.io_service.log :=
    fun i n => (stepping hs).sentBytes_eq hsend i n
  refine ⟨h.flows.io hsane hserved (fun ha => ?_) hs, fun i n hl => ?_, fun i n => ?_⟩
  · rw [hreg] at ha
    cases ha
  · exact (hsame i n).trans (h.mail i n (hlive i n hl))
  · exact (hsame i n).symm ▸ h.front i n

theorem Outbox.call {c : Lobby.Call} {env : Lobby.Env} {posts : Nat → Bool} (h : Outbox sv)
    (hsane : Sane sv.io_service) (hc : Calling sv.io_service.stack c)
    (hcall : sv.call c env posts = some sv') : Outbox sv' := by
  have hstand := (call_spec hsane hcall).2.1
  obtain ⟨lobby, out, s, -, hsent, hdis, hrun, rfl⟩ := call_cases hcall
  refine ⟨?_, fun i n hl => ?_, fun i n => ?_⟩
  · by_cases hleave : ∃ n, c = .onDisCon n
    · obtain ⟨n, rfl⟩ := hleave
      rw [hdis n rfl] at hrun
      obtain rfl := Option.some.inj hrun
      exact h.flows
    · exact h.flows.sends (hc.open_ hsane.flat fun n heq => hleave ⟨n, heq⟩) hrun
  · show sentBytes i n s.log = mailBytes i n lobby.sent
    have hl' := (hstand.live i n).mp hl
    rw [sentBytes_sends hsane.alive.index_lt hrun, if_pos hl', h.mail i n hl', hsent,
      mailBytes_append]
  · show sentBytes i n s.log <+: mailBytes i n lobby.sent
    rw [sentBytes_sends hsane.alive.index_lt hrun, hsent, mailBytes_append]
    split
    · next hl => exact h.mail i n hl ▸ List.prefix_rfl
    · rw [List.append_nil]
      exact (h.front i n).trans (List.prefix_append _ _)

/-- **Every part keeps the outbox.** -/
theorem Outbox.part (h : Outbox sv) (hsane : Sane sv.io_service) (hp : Part sv sv') :
    Outbox sv' := by
  have hlive := fun i n => hp.live hsane (i := i) (n := n)
  cases hp with
  | @dequeue r c accepted s hs =>
    obtain ⟨hio, hlobby, -⟩ := receive_fields r c { sv with io_service := s }
    have h' : Outbox { sv with io_service := s } := by
      refine h.io hsane hs trivial rfl nofun fun i n hl => hlive i n ?_
      rw [hio]
      exact hl
    refine ⟨hio ▸ h'.flows, ?_, ?_⟩
    · rw [hio, hlobby]
      exact h'.mail
    · rw [hio, hlobby]
      exact h'.front
  | finish hs | readMove hs => exact h.io hsane hs trivial rfl nofun hlive
  | return_ hs => exact h.io hsane hs (Int.le_refl 0) rfl nofun hlive
  | call hc hcall => exact h.call hsane hc hcall
  | hand _ _ => exact ⟨h.flows, h.mail, h.front⟩

end Outbox

/-! ## Runs -/

section Runs

open Iocp Iocp.Service

variable {sv sv' : Program} {i n : Nat}

/-- Of a connection that was not announced there is nothing. -/
theorem Known.unseen (h : Known sv) (hn : ¬sv.io_service.Seen i n) :
    sentBytes i n sv.io_service.log = [] ∧ mailBytes i n sv.lobby.sent = [] ∧
      piecesOf i n sv.received = [] ∧ piecesOf i n sv.handed = [] := by
  have hnone : ∀ ps : List Piece, (∀ p ∈ ps, sv.io_service.Seen p.index p.serial) →
      piecesOf i n ps = [] := by
    intro ps hps
    rw [piecesOf, List.filter_eq_nil_iff.mpr fun p hp => ?_, List.map_nil]
    rw [decide_eq_true_eq]
    rintro ⟨rfl, rfl⟩
    exact hn (hps p hp)
  refine ⟨(bytes_of_fresh fun e he heq => hn ?_).1, ?_, hnone _ h.received, hnone _ h.handed⟩
  · have hseen := h.service.covered.log e he
    rwa [heq] at hseen
  · rw [mailBytes, mailFor, List.filter_eq_nil_iff.mpr fun m hm => ?_, List.flatMap_nil]
    rw [decide_eq_true_eq]
    rintro ⟨rfl, rfl⟩
    exact hn (h.handles _ (h.mail m hm).2)

/-- A closed connection gets nothing handed over, and what was received stays. -/
structure Closed (i n : Nat) (sv sv' : Program) : Prop where
  dead : ¬sv'.io_service.Live i n
  handed : piecesOf i n sv'.handed = piecesOf i n sv.handed
  received : sv.received <+: sv'.received

theorem Closed.part {sv₁ : Program} (h : Closed i n sv sv₁) (hsane : Sane sv₁.io_service)
    (hp : Part sv₁ sv') : Closed i n sv sv' := by
  refine ⟨fun hl => h.dead (hp.live hsane hl), ?_, ?_⟩
  · cases hp with
    | dequeue hs =>
      rw [(receive_fields _ _ _).2.2.1]
      exact h.handed
    | finish | readMove | return_ => exact h.handed
    | call _ hcall => rw [(call_unread (i := i) hcall).2, h.handed]
    | @hand j m rest hst body =>
      show piecesOf i n (sv₁.handed ++ [⟨j, m, body⟩]) = _
      have hl : sv₁.io_service.Live j m := by
        rcases hsane.calling (.onRead j m) (hst ▸ List.mem_cons_self) with ⟨r, hr⟩ | hl
        · cases hr
        · exact hl
      have hne : ¬(j = i ∧ m = n) := by
        rintro ⟨rfl, rfl⟩
        exact h.dead hl
      rw [piecesOf_append, h.handed]
      simp [piecesOf, hne]
  · cases hp with
    | dequeue hs =>
      obtain ⟨-, -, -, ps, hrec, -⟩ := receive_fields _ _ _
      rw [hrec]
      exact h.received.trans (List.prefix_append _ _)
    | finish | readMove | return_ | hand => exact h.received
    | call _ hcall => rw [(call_unread (i := i) hcall).1.received]; exact h.received

theorem pieces_front {ps qs : List Piece} (h : ps <+: qs) :
    (piecesOf i n ps).flatten <+: (piecesOf i n qs).flatten := by
  obtain ⟨rs, rfl⟩ := h
  rw [piecesOf_append, List.flatten_append]
  exact List.prefix_append _ _

/-- A socket is accepted while the counter of the serials does not wrap around, into a slot for
which nothing is outstanding. -/
def Fresh (sv : Program) : Input → Prop
  | .accept .. => sv.io_service.m_serial + 1 < 2 ^ 64 ∧
    ∀ j ∈ findFree sv.io_service.m_peer_array MAX_PEER_NUM 0,
      ∀ r ∈ sv.io_service.posted, r.index ≠ j
  | _ => True

instance (sv : Program) : ∀ a, Decidable (Fresh sv a)
  | .accept .. => inferInstanceAs (Decidable (_ ∧ _))
  | .dequeue .. | .finish | .callback .. | .process .. => .isTrue trivial

/-- The invariant of the runs of the server: for every connection, what the lobby was handed are the
first frames of what was received, and what the lobby has sent is on its way in order. -/
structure Fluent (sv : Program) : Prop where
  wired : Wired sv.io_service sv.lobby.board
  known : Known sv
  outbox : Outbox sv
  parsing : ∀ i n, sv.io_service.Live i n → Parsing i n 0 0 sv
  inbox : ∀ i n, piecesOf i n sv.handed <+: be16Format.frames (piecesOf i n sv.received).flatten

theorem Fluent.new : Fluent Program.new :=
  ⟨.new, .new, .new, fun _ _ hl => absurd rfl hl.1, fun _ _ => List.prefix_rfl⟩

/-- What has been parsed was received. -/
theorem Parsing.inbox (h : Parsing i n 0 0 sv) :
    piecesOf i n sv.handed <+: be16Format.frames (piecesOf i n sv.received).flatten := by
  have hframes := h.frames
  rw [List.drop_zero, List.drop_zero] at hframes
  rw [hframes]
  exact List.prefix_append _ _

/-- A new socket. -/
theorem Fluent.accept {sd : Nat} {loc rem : Addr} {bound : Bool} (h : Fluent sv)
    (hfresh : Fresh sv (.accept sd loc rem bound))
    (hs : Server.step sv (.accept sd loc rem bound) = some sv') : Fluent sv' := by
  have hwired := (h.wired.step (fun _ => hfresh.1) hs).1
  have hold : ∀ i n, sv.io_service.Live i n → Parsing i n 0 0 sv' := fun i n hl =>
    (h.parsing i n hl).step hl hs
  obtain ⟨s, hio, rfl⟩ := Option.map_eq_some_iff.mp hs
  have hclean := Clean.of_slot h.known.service hfresh.2 hio
  have hsent := (stepping hio).sentBytes_eq nofun
  obtain ⟨-, hst, -, hcases⟩ := accepted h.wired.sane hfresh.1 hio
  -- a connection that was not there is new
  have hnew : ∀ i n, s.Live i n → ¬sv.io_service.Live i n →
      s.stack = .onCon i n :: sv.io_service.stack ∧ ¬sv.io_service.Seen i n := by
    intro i n hl hno
    rcases hcases with ⟨-, hlive⟩ | ⟨j, m, hann⟩
    · exact absurd ((hlive i n).mp hl) hno
    · rcases (hann.old i n).mp hl with ⟨rfl, rfl⟩ | hl
      · have hstack : s.stack = .onCon i n :: sv.io_service.stack := by rw [hann.stack, hst]
        exact ⟨hstack, fun ⟨_, he⟩ => (hclean i n hstack).2 _ he rfl⟩
      · exact absurd hl hno
  have hserved : Served sv.io_service (.accept sd loc rem bound) := trivial
  have hflows : Flows s := h.outbox.flows.io h.wired.sane hserved (fun _ => hclean) hio
  refine ⟨hwired, h.known.io (fun _ => hfresh.1) hio, ⟨hflows, fun i n hl => ?_, fun i n => ?_⟩,
    fun i n hl => ?_, h.inbox⟩
  · by_cases hno : sv.io_service.Live i n
    · exact (hsent i n).trans (h.outbox.mail i n hno)
    · obtain ⟨hnone, hmail, -⟩ := h.known.unseen (hnew i n hl hno).2
      exact (hsent i n).trans (hnone.trans hmail.symm)
  · exact (hsent i n).symm ▸ h.outbox.front i n
  · by_cases hno : sv.io_service.Live i n
    · exact hold i n hno
    · obtain ⟨hstack, hunseen⟩ := hnew i n hl hno
      obtain ⟨-, -, hrec, hhand⟩ := h.known.unseen hunseen
      cases stepping hio with
      | accept _ hreg =>
        have hcon : s.stack = [.onCon i n] := by rw [hstack, hst]
        obtain ⟨hin, hnil⟩ := Intake.registered hreg hst hcon (hclean i n hstack).1
        refine ⟨hin, Nat.zero_le _, Nat.zero_le _, ?_, ?_⟩
        · rw [List.drop_zero, List.drop_zero, hrec, hhand, hnil]
          rfl
        · rw [List.drop_zero, hrec, hnil]
          rfl

/-- **Every step of the server keeps the invariant.** -/
theorem Fluent.step {a : Input} (h : Fluent sv) (hfresh : Fresh sv a)
    (hs : Server.step sv a = some sv') : Fluent sv' := by
  cases ha : a.accepts with
  | true =>
    cases a with
    | accept sd loc rem bound => exact h.accept hfresh hs
    | dequeue | finish | callback | process => cases ha
  | false =>
    have hparts := step_parts h.wired ha hs
    obtain ⟨hknown, houtbox⟩ := hparts.invariant
      (P := fun t => Known t ∧ Outbox t) ⟨h.known, h.outbox⟩
      fun t u hsane ⟨hk, ho⟩ hp => ⟨hk.part hsane hp, ho.part hsane hp⟩
    have hlive : ∀ i n, sv'.io_service.Live i n → sv.io_service.Live i n := fun i n =>
      hparts.invariant (P := fun t => t.io_service.Live i n → sv.io_service.Live i n) id
        fun t u hsane ht hp hl => ht (hp.live hsane hl)
    refine ⟨(h.wired.step (fun hacc => ?_) hs).1, hknown, houtbox, fun i n hl => ?_, fun i n => ?_⟩
    · rw [ha] at hacc
      cases hacc
    · exact (h.parsing i n (hlive i n hl)).step (hlive i n hl) hs
    · by_cases hl : sv.io_service.Live i n
      · exact ((h.parsing i n hl).step hl hs).inbox
      · have hclosed : Closed i n sv sv' := hparts.invariant (P := Closed i n sv)
          ⟨hl, rfl, List.prefix_rfl⟩ fun t u hsane ht hp => ht.part hsane hp
        rw [hclosed.handed]
        exact (h.inbox i n).trans (FrameFormat.frames_mono (pieces_front hclosed.received))

theorem Fluent.of_reach (hr : Reach (· = Program.new) Server.step Fresh sv) : Fluent sv := by
  refine hr.invariant Fluent ?_ fun _ _ _ h hfresh hs => h.step hfresh hs
  rintro sv rfl
  exact .new

/-- **The server passes messages on in order.** For every connection, open or closed: the lobby was
handed the first frames of what was received; the service has been given the first of what the lobby
has sent, and all of it if the connection is open; and what was transmitted is the front of that, as
long as it is less than a gigabyte. -/
theorem delivers_in_order (hr : Reach (· = Program.new) Server.step Fresh sv) (i n : Nat) :
    piecesOf i n sv.handed <+: be16Format.frames (piecesOf i n sv.received).flatten ∧
      sentBytes i n sv.io_service.log <+: mailBytes i n sv.lobby.sent ∧
      (sv.io_service.Live i n →
        sentBytes i n sv.io_service.log = mailBytes i n sv.lobby.sent) ∧
      ((sentBytes i n sv.io_service.log).length < 2 ^ 30 →
        transmittedBytes i n sv.io_service.log <+: sentBytes i n sv.io_service.log) :=
  have h := Fluent.of_reach hr
  ⟨h.inbox i n, h.outbox.front i n, h.outbox.mail i n, fun hlen => (h.outbox.flows i n hlen).1.front⟩

/-- The first connection is accepted, and nothing is outstanding for its slot. -/
theorem reach_accepted : Reach (· = Program.new) step Fresh acceptedProgram :=
  .next (.start rfl) (by decide +kernel) (Option.some_get firstAccept_runs).symm

theorem delivers_in_order_twoParts :
    let sv := (exec step acceptedProgram twoParts).get twoParts_runs
    piecesOf 0 0 sv.handed = [[0, 4]] ∧
      piecesOf 0 0 sv.handed <+: be16Format.frames (piecesOf 0 0 sv.received).flatten :=
  ⟨by decide +kernel, (delivers_in_order (Reach.of_exec reach_accepted (by decide +kernel)
    (Option.some_get twoParts_runs).symm) 0 0).1⟩

end Runs

end GhNet.Server
