import Symbolon.Client
import Symbolon.Daemon
import Symbolon.Transport.Delivery

/-!
# A client and the daemon, with a socket between them

The helper of `Symbolon.Client` in `drive`, a connection of the daemon in `handle_connection`,
and the bytes on the way between them (`Symbolon.Link`). The daemon is the whole daemon: other
connections and admin calls go on around the one that is looked at. The network delivers what
is written, in pieces of any size, and it may break at any time; the provider may fail, the
handler may be dropped by its timeout, the process may die.

What the network and the machine must do for the client to be served is a condition on the steps
(`Symbolon.Link.Serves`): nothing of the connection breaks or times out, the provider answers, the
client is enrolled when its key is asked for, and no read of the daemon returns more than is
missing. The last is not a matter of course, since `read_exact_n` offers more room than that.

Byte by byte, a system that serves is the relay of turns of `Symbolon.Transport.Delivery`: a write
is made when it starts, a read when its last byte is there, and everything else is not seen
(`Symbolon.ClientShows`, `Symbolon.ConnShows`).
-/

namespace Symbolon

open Text

/-! ### The system -/

/-- **An errand**: a conversation in which the broker does what the daemon does. The request is
one that the daemon takes, for a host that it serves, and the response is what the provider
answers. -/
structure Errand (S : Snow) (cfg : Setup) extends Conversation S where
  /-- The request, parsed. -/
  parsed : Request
  /-- The request is well-formed. -/
  parse_eq : Request.parse request = .ok parsed
  /-- It is not too long. -/
  small : request.length ≤ wireReadBudget
  /-- The provider. -/
  provider : Provider
  /-- It is the one for the host. -/
  find_eq : (cfg.providers.find? fun p => p.host = parsed.host) = some provider
  /-- What the provider answers. -/
  outcome : MintOutcome
  /-- The response carries it. -/
  response_eq : response = outcome.response.encode parsed.clientSupportsAuthtype
  /-- The broker is the daemon. -/
  key_eq : key = cfg.brokerKey

/-- Both tables know the client. -/
def Errand.Enrolled {S : Snow} {cfg : Setup} (x : Errand S cfg) (t : Tables) : Prop :=
  t.psks.lookup x.identity = some x.psk ∧ x.identity ∈ t.clients

/-- **A client and the daemon.** -/
structure Link (S : Snow) where
  /-- The daemon. -/
  daemon : Daemon S
  /-- The client. -/
  client : Client S
  /-- The bytes on the way to the daemon. -/
  toBroker : Bytes
  /-- The bytes on the way to the client. -/
  toClient : Bytes

/-- A label: what happened to the client, or what the daemon did. -/
abbrev LinkLabel (S : Snow) := ClientEvent ⊕ DaemonLabel S

/-- The step is one of the client or of connection `i`. -/
def LinkLabel.own {S : Snow} (i : ℕ) : LinkLabel S → Bool
  | .inl _ => true
  | .inr (.conn j _, _) => j = i
  | .inr _ => false

/-- The event takes bytes from the socket, or puts some there. -/
def ClientEvent.transfers : ClientEvent → Bool
  | .read _ | .wrote _ => true
  | .run | .eof | .readErr _ | .writeErr _ => false

/-- It does so for connection `i`. -/
def DaemonEvent.transfers {S : Snow} (i : ℕ) : DaemonEvent S → Bool
  | .conn j (.read _) | .conn j (.wrote _) => j = i
  | _ => false

/-- **The steps of a client and the daemon**, over connection `i`: whatever happens to either, but
what one reads the other has written. -/
inductive Link.Step {S : Snow} (cfg : Setup) (i : ℕ) (L : Link S) : LinkLabel S → Link S → Prop
  /-- A read of the client returns. -/
  | clientRead {bytes rest : Bytes} {c : Client S} (h : L.client.next (.read bytes) = some c)
      (hpipe : L.toClient = bytes ++ rest) :
      Step cfg i L (.inl (.read bytes)) { L with client := c, toClient := rest }
  /-- A write of the client returns. -/
  | clientWrote {k : ℕ} {rest : Bytes} {c : Client S} (hpc : L.client.pc = .writing rest)
      (h : L.client.next (.wrote k) = some c) :
      Step cfg i L (.inl (.wrote k)) { L with client := c, toBroker := L.toBroker ++ rest.take k }
  /-- Something else happens to the client. -/
  | client {e : ClientEvent} {c : Client S} (h : L.client.next e = some c)
      (he : e.transfers = false) : Step cfg i L (.inl e) { L with client := c }
  /-- A read of the connection returns. -/
  | brokerRead {bytes rest : Bytes} {o : DaemonOutput} {d : Daemon S}
      (h : Daemon.Step cfg L.daemon (.conn i (.read bytes), o) d)
      (hpipe : L.toBroker = bytes ++ rest) :
      Step cfg i L (.inr (.conn i (.read bytes), o)) { L with daemon := d, toBroker := rest }
  /-- A write of the connection returns. -/
  | brokerWrote {k : ℕ} {rest : Bytes} {c : Conn S} {o : DaemonOutput} {d : Daemon S}
      (hc : L.daemon.conns[i]? = some c) (hpc : c.pc = .writing rest)
      (h : Daemon.Step cfg L.daemon (.conn i (.wrote k), o) d) :
      Step cfg i L (.inr (.conn i (.wrote k), o))
        { L with daemon := d, toClient := L.toClient ++ rest.take k }
  /-- Something else happens to the daemon. -/
  | daemon {l : DaemonLabel S} {d : Daemon S} (h : Daemon.Step cfg L.daemon l d)
      (hl : l.1.transfers i = false) : Step cfg i L (.inr l) { L with daemon := d }

/-! ### What serves an errand -/

/-- The client's socket works. -/
def ClientEvent.Serves : ClientEvent → Prop
  | .run | .read _ => True
  | .wrote k => 0 < k
  | .eof | .readErr _ | .writeErr _ => False

/-- **What happens to connection `i` serves the errand**: when the key is asked for, the client is
enrolled and the errand's randomness is drawn; no read returns more than is missing; the provider
answers; nothing breaks or times out. -/
def Errand.ServesConn {S : Snow} {cfg : Setup} (x : Errand S cfg) (i : ℕ) (d : Daemon S) :
    ConnEvent S → Prop
  | .run _ _ seed => ∀ c hs identity, d.conns[i]? = some c → c.sess = .needPsk hs identity →
    x.Enrolled d.state.tables ∧ seed = x.seedR
  | .read bytes => ∀ c phase n out, d.conns[i]? = some c → c.pc = .reading phase n out →
    (out ++ bytes).length ≤ n
  | .minted result => result = .ok x.outcome
  | .wrote _ | .flushed => True
  | .eof | .readErr | .writeErr | .timeout => False

/-- **The step serves the errand**: what happens to the client and to connection `i` does, and the
process does not die. Other connections and admin calls do as they like. -/
def Link.Serves {S : Snow} {cfg : Setup} (x : Errand S cfg) (i : ℕ) (L : Link S) :
    LinkLabel S → Prop
  | .inl e => e.Serves
  | .inr (.conn j e, _) => j = i → x.ServesConn i L.daemon e
  | .inr (.crash _, _) => False
  | .inr _ => True

/-- The steps that serve the errand. -/
abbrev Link.Service {S : Snow} {cfg : Setup} (x : Errand S cfg) (i : ℕ) :
    Link S → LinkLabel S → Link S → Prop :=
  Lts.restrict (Link.Step cfg i) (Link.Serves x i)

/-! ### What the sessions do when they are served -/

section Sessions

variable {S : Snow}

theorem Initiator.eq_of_step_readExact {s s' : IState S} {n : ℕ}
    (h : Initiator.step s = (s', .ok (.readExact n))) : s' = s := by
  cases s <;> cases h <;> rfl

theorem Responder.eq_of_step_readExact {s s' : RState S} {n : ℕ}
    (h : Responder.step s = (s', .ok (.readExact n))) : s' = s := by
  cases s <;> cases h <;> rfl

/-- A session that has taken bytes is not where it was. -/
theorem Initiator.recv_ne {s s' : IState S} {bytes : Bytes}
    (h : Initiator.recv s bytes = (s', .ok ())) : s' ≠ s := by
  rintro rfl
  cases s' <;> simp only [Initiator.recv] at h <;> repeat' split at h
  all_goals cases h

theorem Responder.recv_ne {s s' : RState S} {bytes : Bytes}
    (h : Responder.recv s bytes = (s', .ok ())) : s' ≠ s := by
  rintro rfl
  cases s' <;> simp only [Responder.recv] at h <;> repeat' split at h
  all_goals cases h

/-- A session whose bytes are on the wire is not where it was. -/
theorem Initiator.wrote_ne {s s₁ s' : IState S} {bytes : Bytes}
    (hstep : Initiator.step s = (s₁, .ok (.write bytes)))
    (h : Initiator.wrote s₁ = (s', .ok ())) : s' ≠ s := by
  rintro rfl
  cases s' <;> simp only [Initiator.step] at hstep <;> cases hstep <;> cases h

theorem Responder.wrote_ne {s s₁ s' : RState S} {bytes : Bytes}
    (hstep : Responder.step s = (s₁, .ok (.write bytes)))
    (h : Responder.wrote s₁ = (s', .ok ())) : s' ≠ s := by
  rintro rfl
  cases s' <;> simp only [Responder.step] at hstep <;> cases hstep
  · simp only [Responder.wrote] at h
    split at h <;> cases h
  · cases h

end Sessions

/-! ### The client, as a party of the relay -/

/-- What a session asks for is not too large: a read has the length of a message at most, and a
write that of a frame. -/
def Small {ε : Type} : Except ε SessionStep → Prop
  | .ok (.readExact n) => n ≤ maxMessageSize
  | .ok (.write bytes) => bytes.length ≤ maxMessageSize + 2
  | _ => True

/-- The work that is left to a client before its session moves: most at the end of a turn, since
another turn is to follow. -/
def Client.work {S : Snow} (c : Client S) : ℕ :=
  match c.pc with
  | .top => maxMessageSize + 1
  | .reading n out => n - out.length
  | .writing rest => maxMessageSize + 1 + rest.length
  | .finished _ => 0

/-- **What a client shows of its session**, with the bytes it has read and those it has still to
write. -/
inductive ClientShows {S : Snow} (s : IState S) : Client S → Bytes → Bytes → Prop
  /-- At the head of its loop, it shows the session. -/
  | top : ClientShows s ⟨s, .top⟩ [] []
  /-- A read that is not over has not been made. -/
  | reading {n : ℕ} {out : Bytes} (hstep : Initiator.step s = (s, .ok (.readExact n)))
      (hlt : out.length < n) : ClientShows s ⟨s, .reading n out⟩ out []
  /-- A write that is not over has been made. -/
  | writing {s₀ : IState S} {rest : Bytes} (hwrote : Initiator.wrote s₀ = (s, .ok ()))
      (hne : rest ≠ []) : ClientShows s ⟨s₀, .writing rest⟩ [] rest
  /-- The response has been returned. -/
  | finished {response : Bytes} (hs : s = .done response) :
      ClientShows s ⟨.drained, .finished (.ok response)⟩ [] []

namespace ClientShows

variable {S : Snow} {s : IState S} {c c' : Client S} {out rest inbox bytes : Bytes} {k : ℕ}

/-- The session has been served, with what was there to read. -/
structure Moved (s : IState S) (inbox : Bytes) (c' : Client S) (inbox' : Bytes) : Prop where
  /-- What is left to read. -/
  inbox_eq : (Initiator.drive s inbox).inbox = inbox'
  /-- The session is somewhere else. -/
  state_ne : (Initiator.drive s inbox).state ≠ s
  /-- The client shows it. -/
  shows : ClientShows (Initiator.drive s inbox).state c' [] (Initiator.drive s inbox).written
  /-- There is only so much to do. -/
  work_le : c'.work ≤ 2 * maxMessageSize + 3

/-- The session waits, and the client has less to do. -/
structure Waits (s : IState S) (c c' : Client S) (out rest : Bytes) : Prop where
  /-- The client shows it. -/
  shows : ClientShows s c' out rest
  /-- There is less to do. -/
  work_lt : c'.work < c.work

/-- A turn that serves the session: the client is at the head of its loop again. -/
theorem Moved.of_drive {s' : IState S} {inbox' : Bytes} {step : SessionStep}
    (hdrive : Initiator.drive s inbox = ⟨s', inbox', [], .ok step⟩) (hne : s' ≠ s) :
    Moved s inbox ⟨s', .top⟩ inbox' := by
  constructor
  · rw [hdrive]
  · rwa [hdrive]
  · rw [hdrive]
    exact .top
  · simp only [Client.work]
    omega

/-- The bytes of a read are there, and the session takes them. -/
theorem Moved.of_recv {n : ℕ} (bytes tail : Bytes) {s' : IState S}
    (hstep : Initiator.step s = (s, .ok (.readExact n))) (hlen : bytes.length = n)
    (hrecv : Initiator.recv s bytes = (s', .ok ())) :
    Moved s (bytes ++ tail) ⟨s', .top⟩ tail := by
  have hdrive : Initiator.drive s (bytes ++ tail) = ⟨s', tail, [], .ok (.readExact n)⟩ := by
    rw [Initiator.drive, hstep]
    exact Driven.read_append hlen hrecv
  exact Moved.of_drive hdrive (Initiator.recv_ne hrecv)

/-- **The client runs on**: its session is served, or it goes to wait for that. -/
theorem run (h : ClientShows s c out rest) (hnext : c.next .run = some c')
    (hsmall : Small (Initiator.step s).2)
    (hok : ∃ step, (Initiator.drive s inbox).result = .ok step) :
    out = [] ∧ rest = [] ∧ (Waits s c c' [] [] ∨ Moved s inbox c' inbox) := by
  cases h with
  | reading | writing | finished => cases hnext
  | top =>
    replace hnext : Client.turn ⟨s, .top⟩ = c' := Option.some.inj hnext
    obtain ⟨step, hok⟩ := hok
    refine ⟨rfl, rfl, ?_⟩
    rcases hstep : Initiator.step s with ⟨s₁, e | st⟩
    · simp [Initiator.drive, hstep] at hok
    · rw [Client.turn, hstep] at hnext
      cases st with
      | readExact n =>
        obtain rfl := Initiator.eq_of_step_readExact hstep
        dsimp only at hnext
        by_cases hn : n = 0
        · subst hn
          rcases hrecv : Initiator.recv s₁ [] with ⟨s', e | ⟨⟩⟩
          · simp [Initiator.drive, hstep, Driven.read, hrecv, Driven.served] at hok
          · rw [if_pos rfl, hrecv] at hnext
            subst hnext
            exact .inr (Moved.of_recv [] inbox hstep rfl hrecv)
        · rw [if_neg hn] at hnext
          subst hnext
          have hle : n ≤ maxMessageSize := by rwa [hstep] at hsmall
          refine .inl ⟨.reading hstep (Nat.pos_of_ne_zero hn), ?_⟩
          simp only [Client.work, List.length_nil, Nat.sub_zero]
          omega
      | write bytes =>
        dsimp only at hnext
        rcases hwrote : Initiator.wrote s₁ with ⟨s', e | ⟨⟩⟩
        · simp [Initiator.drive, hstep, hwrote, Driven.served] at hok
        · have hdrive : Initiator.drive s inbox = ⟨s', inbox, bytes, .ok (.write bytes)⟩ := by
            simp only [Initiator.drive, hstep, hwrote, Driven.served]
          have hne := Initiator.wrote_ne hstep hwrote
          by_cases hb : bytes = []
          · rw [if_pos hb, hwrote] at hnext
            subst hnext hb
            exact .inr (Moved.of_drive hdrive hne)
          · rw [if_neg hb] at hnext
            subst hnext
            have hle : bytes.length ≤ maxMessageSize + 2 := by rwa [hstep] at hsmall
            refine .inr ⟨by rw [hdrive], by rwa [hdrive], ?_, ?_⟩
            · rw [hdrive]
              exact .writing hwrote hb
            · simp only [Client.work]
              omega
      | done =>
        have hs : ∃ response, s = .done response ∧ s₁ = .done response := by
          cases s <;> cases hstep
          exact ⟨_, rfl, rfl⟩
        obtain ⟨response, rfl, rfl⟩ := hs
        subst hnext
        exact .inl ⟨.finished rfl, Nat.succ_pos _⟩
      | needPsk identity => cases s <;> cases hstep
      | request plaintext => cases s <;> cases hstep

/-- **A read of the client returns**: bytes are missing, or its session takes them. -/
theorem read {tail : Bytes} (h : ClientShows s c out rest) (hnext : c.next (.read bytes) = some c')
    (hok : ∃ step, (Initiator.drive s (out ++ bytes ++ tail)).result = .ok step) :
    rest = [] ∧ (Waits s c c' (out ++ bytes) [] ∨ Moved s (out ++ bytes ++ tail) c' tail) := by
  cases h with
  | top | writing | finished => cases hnext
  | @reading n _ hstep hlt =>
    refine ⟨rfl, ?_⟩
    simp only [Client.next] at hnext
    split at hnext
    · cases hnext
    · rename_i hfit
      rw [not_or, not_lt] at hfit
      have hpos := List.length_pos_iff.mpr hfit.1
      split at hnext
      · rename_i hless
        cases hnext
        refine .inl ⟨.reading hstep hless, ?_⟩
        simp only [Client.work, List.length_append] at hless ⊢
        omega
      · rename_i hfull
        have hlen : (out ++ bytes).length = n := by omega
        obtain ⟨step, hok⟩ := hok
        rcases hrecv : Initiator.recv s (out ++ bytes) with ⟨s', e | ⟨⟩⟩
        · have hread : n ≤ (out ++ bytes ++ tail).length := by
            rw [List.length_append]
            omega
          simp only [Initiator.drive, hstep, Driven.read, if_pos hread, List.take_left' hlen, hrecv,
            Driven.served] at hok
          cases hok
        · rw [hrecv] at hnext
          cases hnext
          exact .inr (Moved.of_recv _ tail hstep hlen hrecv)

/-- **A write of the client returns**, and nothing is seen of it. -/
theorem wrote (h : ClientShows s c out rest) (hk : 0 < k) (hnext : c.next (.wrote k) = some c') :
    out = [] ∧ Waits s c c' [] (rest.drop k) := by
  cases h with
  | top | reading | finished => cases hnext
  | @writing s₀ _ hwrote hne =>
    have hpos := List.length_pos_iff.mpr hne
    simp only [Client.next] at hnext
    split at hnext
    · cases hnext
    · rename_i hle
      rw [if_neg (Nat.ne_of_gt hk)] at hnext
      split at hnext
      · rename_i hlt
        cases hnext
        refine ⟨rfl, .writing hwrote fun hnil => ?_, ?_⟩
        · rw [List.drop_eq_nil_iff] at hnil
          omega
        · simp only [Client.work, List.length_drop]
          omega
      · rename_i hge
        rw [hwrote] at hnext
        cases hnext
        rw [List.drop_eq_nil_of_le (not_lt.mp hge)]
        refine ⟨rfl, .top, ?_⟩
        simp only [Client.work, Client.continueWith]
        omega

end ClientShows

/-! ### The connection, as a party of the relay -/

/-- The work that is left to a connection before its session moves. -/
def Conn.work {S : Snow} (c : Conn S) : ℕ :=
  match c.pc with
  | .top => maxMessageSize + 1
  | .reading _ n out => n - out.length
  | .writing rest => maxMessageSize + 1 + rest.length
  | .minting .. => 1
  | .flushing => 1
  | .closed => 0

namespace Errand

variable {S : Snow} {cfg : Setup} (x : Errand S cfg)

/-- The client the connection has authorised, by where its session is. -/
def nameAt : RState S → Option Bytes
  | .wantHsLen _ | .wantHsBody .. | .needPsk .. => none
  | _ => some x.identity.str

/-- The mint the connection has made, by where its session is. -/
def recordAt : RState S → Option MintRecord
  | .writeResp _ | .done => some ⟨x.parsed.host, x.parsed.path, x.outcome.response⟩
  | _ => none

/-- The connection at a place of its loop. -/
def connAt (s sess : RState S) (pc : Pc) : Conn S := ⟨sess, x.nameAt s, x.recordAt s, pc⟩

/-- **All that the connection does for the errand**, its reads and writes apart. -/
def script : List Act :=
  [.log { evt := .accept, pskIdentity := some x.identity }, .setPsk x.identity x.psk true,
    .mint x.provider x.parsed.path, .answered (.ok x.outcome),
    .log { evt := .mint, client := some x.identity.str, host := some x.parsed.host,
           repo := some x.parsed.path }, .close]

end Errand

/-- How much of the script a session tells of. -/
def RState.told {S : Snow} : RState S → ℕ
  | .wantHsLen _ | .wantHsBody .. | .needPsk .. => 0
  | .writeResp _ | .done => 4
  | _ => 2

/-- How much of the script a connection has done, by where it is. -/
def toldAt {S : Snow} (s : RState S) : Pc → ℕ
  | .closed => 6
  | .minting .. => 3
  | _ => s.told

/-- The act is more than reading and writing. -/
def Act.visible : Act → Bool
  | .readExact _ | .recv _ | .wrote _ => false
  | _ => true

/-- **What a connection shows of its session**, with the bytes it has read and those it has
still to write. -/
inductive ConnShows {S : Snow} {cfg : Setup} (x : Errand S cfg) (s : RState S) :
    Conn S → Bytes → Bytes → Prop
  /-- At the head of its loop, it shows the session. -/
  | top : ConnShows x s (x.connAt s s .top) [] []
  /-- A read that is not over has not been made. -/
  | reading {n : ℕ} {out : Bytes} (hstep : Responder.step s = (s, .ok (.readExact n)))
      (hlt : out.length < n) : ConnShows x s (x.connAt s s (.reading s.phase n out)) out []
  /-- A write that is not over has been made. -/
  | writing {s₀ : RState S} {rest : Bytes} (hwrote : Responder.wrote s₀ = (s, .ok ()))
      (hne : rest ≠ []) : ConnShows x s (x.connAt s s₀ (.writing rest)) [] rest
  /-- A request that is being processed has not been. -/
  | minting {ts : S.Ts} (hs : s = .haveRequest ts x.request) :
      ConnShows x s (x.connAt s (.awaitingResponse ts) (.minting x.parsed x.provider)) [] []
  /-- The session is over. -/
  | flushing (hs : s = .done) : ConnShows x s (x.connAt s s .flushing) [] []
  /-- The connection is closed. -/
  | closed (hs : s = .done) : ConnShows x s (x.connAt s s .closed) [] []

namespace ConnShows

variable {S : Snow} {cfg : Setup} {x : Errand S cfg} {s : RState S} {c c' : Conn S}
  {out rest inbox bytes : Bytes} {k : ℕ} {sh : Shared} {limiter : Limiter} {acts : List Act}

/-- The acts lead from one place in the script to another. -/
def Tells (x : Errand S cfg) (n : ℕ) (acts : List Act) (m : ℕ) : Prop :=
  x.script.take n ++ acts.filter Act.visible = x.script.take m

/-- What a session tells of does not change by a read. -/
theorem recv_at {s' : RState S} (h : Responder.recv s bytes = (s', .ok ())) :
    x.nameAt s' = x.nameAt s ∧ x.recordAt s' = x.recordAt s ∧ s'.told = s.told := by
  cases s <;> simp only [Responder.recv] at h <;> repeat' split at h
  all_goals first
    | cases h; done
    | cases h; exact ⟨rfl, rfl, rfl⟩

/-- Nor does it by a write. -/
theorem wrote_at {s₁ s' : RState S} (hstep : Responder.step s = (s₁, .ok (.write bytes)))
    (h : Responder.wrote s₁ = (s', .ok ())) :
    x.nameAt s' = x.nameAt s ∧ x.recordAt s' = x.recordAt s ∧ s'.told = s.told := by
  cases s <;> cases hstep
  · simp only [Responder.wrote] at h
    split at h <;> cases h
    exact ⟨rfl, rfl, rfl⟩
  · cases h
    exact ⟨rfl, rfl, rfl⟩

theorem connAt_congr {s' : RState S} (hn : x.nameAt s' = x.nameAt s)
    (hr : x.recordAt s' = x.recordAt s) (sess : RState S) (pc : Pc) :
    x.connAt s sess pc = x.connAt s' sess pc := by
  rw [Errand.connAt, Errand.connAt, hn, hr]

/-- The session has been served, with what was there to read. -/
structure Moved (x : Errand S cfg) (s : RState S) (inbox : Bytes) (n : ℕ) (acts : List Act)
    (c' : Conn S) (inbox' : Bytes) : Prop where
  /-- What is left to read. -/
  inbox_eq : (Responder.drive x.psk x.seedR x.response s inbox).inbox = inbox'
  /-- The session is somewhere else. -/
  state_ne : (Responder.drive x.psk x.seedR x.response s inbox).state ≠ s
  /-- The connection shows it. -/
  shows : ConnShows x (Responder.drive x.psk x.seedR x.response s inbox).state c' []
    (Responder.drive x.psk x.seedR x.response s inbox).written
  /-- The acts are told. -/
  tells : Tells x n acts (toldAt (Responder.drive x.psk x.seedR x.response s inbox).state c'.pc)
  /-- There is only so much to do. -/
  work_le : c'.work ≤ 2 * maxMessageSize + 3

/-- The session waits, and the connection has less to do. -/
structure Waits (x : Errand S cfg) (s : RState S) (c : Conn S) (acts : List Act) (c' : Conn S)
    (out rest : Bytes) : Prop where
  /-- The connection shows it. -/
  shows : ConnShows x s c' out rest
  /-- There is less to do. -/
  work_lt : c'.work < c.work
  /-- The acts are told. -/
  tells : Tells x (toldAt s c.pc) acts (toldAt s c'.pc)

/-- A turn that serves the session: the connection is at the head of its loop again. -/
theorem Moved.of_drive {s' : RState S} {inbox' : Bytes} {step : SessionStep} {n : ℕ}
    (hdrive : Responder.drive x.psk x.seedR x.response s inbox = ⟨s', inbox', [], .ok step⟩)
    (hne : s' ≠ s) (htells : Tells x n acts s'.told) :
    Moved x s inbox n acts (x.connAt s' s' .top) inbox' := by
  constructor
  · rw [hdrive]
  · rwa [hdrive]
  · rw [hdrive]
    exact .top
  · rw [hdrive]
    exact htells
  · simp only [Conn.work, Errand.connAt]
    omega

theorem tells_nil {n : ℕ} (h : acts.filter Act.visible = []) : Tells x n acts n := by
  rw [Tells, h, List.append_nil]

/-- The bytes of a read are there, and the session takes them. -/
theorem Moved.of_recv {n : ℕ} (bytes tail : Bytes) {s' : RState S}
    (hstep : Responder.step s = (s, .ok (.readExact n))) (hlen : bytes.length = n)
    (hrecv : Responder.recv s bytes = (s', .ok ())) (hacts : acts.filter Act.visible = []) :
    Moved x s (bytes ++ tail) s.told acts (x.connAt s s' .top) tail := by
  obtain ⟨hname, hrecord, htold⟩ := recv_at (x := x) hrecv
  have hdrive : Responder.drive x.psk x.seedR x.response s (bytes ++ tail) =
      ⟨s', tail, [], .ok (.readExact n)⟩ := by
    rw [Responder.drive, hstep]
    exact Driven.read_append hlen hrecv
  rw [connAt_congr hname hrecord]
  exact Moved.of_drive hdrive (Responder.recv_ne hrecv) (htold ▸ tells_nil hacts)

section Turn

variable {now : Instant} {random : Except String Psk} {seed : S.Seed}

theorem run_readExact {n : ℕ} (hstep : Responder.step s = (s, .ok (.readExact n)))
    (hsmall : Small (Responder.step s).2)
    (hok : ∃ step, (Responder.drive x.psk x.seedR x.response s inbox).result = .ok step)
    (hturn : (x.connAt s s .top).turn cfg.providers sh now random seed = (c', limiter, acts)) :
    Waits x s (x.connAt s s .top) acts c' [] [] ∨ Moved x s inbox s.told acts c' inbox := by
  simp only [Conn.turn, Errand.connAt, hstep] at hturn
  by_cases hn : n = 0
  · subst hn
    obtain ⟨step, hok⟩ := hok
    rcases hrecv : Responder.recv s [] with ⟨s', e | ⟨⟩⟩
    · simp [Responder.drive, hstep, Driven.read, hrecv, Driven.served] at hok
    · rw [if_pos rfl, hrecv] at hturn
      cases hturn
      exact .inr (Moved.of_recv [] inbox hstep rfl hrecv rfl)
  · rw [if_neg hn] at hturn
    cases hturn
    have hle : n ≤ maxMessageSize := by rwa [hstep] at hsmall
    refine .inl ⟨.reading hstep (Nat.pos_of_ne_zero hn), ?_, tells_nil rfl⟩
    simp only [Conn.work, Errand.connAt, List.length_nil, Nat.sub_zero]
    omega

theorem run_write {s₁ : RState S} (hstep : Responder.step s = (s₁, .ok (.write bytes)))
    (hsmall : Small (Responder.step s).2)
    (hok : ∃ step, (Responder.drive x.psk x.seedR x.response s inbox).result = .ok step)
    (hturn : (x.connAt s s .top).turn cfg.providers sh now random seed = (c', limiter, acts)) :
    Moved x s inbox s.told acts c' inbox := by
  simp only [Conn.turn, Errand.connAt, hstep] at hturn
  obtain ⟨step, hok⟩ := hok
  rcases hwrote : Responder.wrote s₁ with ⟨s', e | ⟨⟩⟩
  · simp [Responder.drive, hstep, hwrote, Driven.served] at hok
  · have hdrive : Responder.drive x.psk x.seedR x.response s inbox =
        ⟨s', inbox, bytes, .ok (.write bytes)⟩ := by
      simp only [Responder.drive, hstep, hwrote, Driven.served]
    obtain ⟨hname, hrecord, htold⟩ := wrote_at (x := x) hstep hwrote
    by_cases hb : bytes = []
    · subst hb
      rw [if_pos rfl, hwrote] at hturn
      cases hturn
      change Moved x s inbox s.told [] (x.connAt s s' .top) inbox
      rw [connAt_congr hname hrecord]
      exact Moved.of_drive hdrive (Responder.wrote_ne hstep hwrote) (htold ▸ tells_nil rfl)
    · rw [if_neg hb] at hturn
      cases hturn
      have hle : bytes.length ≤ maxMessageSize + 2 := by rwa [hstep] at hsmall
      refine ⟨by rw [hdrive], ?_, ?_, ?_, ?_⟩
      · rw [hdrive]
        exact Responder.wrote_ne hstep hwrote
      · rw [hdrive]
        change ConnShows x s' (x.connAt s s₁ (.writing bytes)) [] bytes
        rw [connAt_congr hname hrecord]
        exact .writing hwrote hb
      · rw [hdrive]
        exact htold ▸ tells_nil rfl
      · simp only [Conn.work]
        omega

theorem run_needPsk {hs : S.Hs} (hs' : s = .needPsk hs x.identity)
    (henrolled : x.Enrolled sh.tables) (hseed : seed = x.seedR)
    (hok : ∃ step, (Responder.drive x.psk x.seedR x.response s inbox).result = .ok step)
    (hturn : (x.connAt s s .top).turn cfg.providers sh now random seed = (c', limiter, acts)) :
    Moved x s inbox s.told acts c' inbox := by
  subst hs' hseed
  obtain ⟨step, hok⟩ := hok
  rcases hw : Responder.writeMsg2 hs x.psk x.seedR with e | ⟨hs₂, msg⟩
  · simp [Responder.drive, Responder.step, Responder.setPsk, hw, Driven.served] at hok
  · simp only [Conn.turn, Errand.connAt, Responder.step, Conn.needPsk, Conn.choosePsk,
      henrolled.1, decide_eq_true henrolled.2, Responder.setPsk, hw, Conn.continueWith] at hturn
    cases hturn
    exact Moved.of_drive (Responder.drive_needPsk hw) (by simp) rfl

theorem run_request {ts : S.Ts} (hs : s = .haveRequest ts x.request)
    (hturn : (x.connAt s s .top).turn cfg.providers sh now random seed = (c', limiter, acts)) :
    Waits x s (x.connAt s s .top) acts c' [] [] := by
  subst hs
  have hsmall : ¬wireReadBudget < x.request.length := Nat.not_lt.mpr x.small
  simp only [Conn.turn, Errand.connAt, Responder.step, Conn.request, Errand.nameAt, if_neg hsmall,
    x.parse_eq, x.find_eq] at hturn
  cases hturn
  exact ⟨.minting rfl, by simp [Conn.work, Errand.connAt, maxMessageSize], rfl⟩

/-- **The connection runs on**: its session is served, or it goes to wait for that. -/
theorem run (h : ConnShows x s c out rest)
    (hnext : c.next cfg.providers sh (.run now random seed) = some (c', limiter, acts))
    (hserves : ∀ hs identity, c.sess = .needPsk hs identity →
      x.Enrolled sh.tables ∧ seed = x.seedR)
    (hid : ∀ hs identity, s = .needPsk hs identity → identity = x.identity)
    (hreq : ∀ ts plaintext, s = .haveRequest ts plaintext → plaintext = x.request)
    (hsmall : Small (Responder.step s).2)
    (hok : ∃ step, (Responder.drive x.psk x.seedR x.response s inbox).result = .ok step) :
    out = [] ∧ rest = [] ∧
      (Waits x s c acts c' [] [] ∨ Moved x s inbox (toldAt s c.pc) acts c' inbox) := by
  cases h with
  | reading | writing | minting | flushing | closed => cases hnext
  | top =>
    replace hnext := Option.some.inj hnext
    refine ⟨rfl, rfl, ?_⟩
    rcases hstep : Responder.step s with ⟨s₁, e | st⟩
    · obtain ⟨step, hok⟩ := hok
      simp [Responder.drive, hstep] at hok
    · cases st with
      | readExact n =>
        obtain rfl := Responder.eq_of_step_readExact hstep
        exact run_readExact hstep hsmall hok hnext
      | write bytes => exact .inr (run_write hstep hsmall hok hnext)
      | needPsk identity =>
        have hs : ∃ hs, s = .needPsk hs identity := by
          cases s <;> cases hstep
          exact ⟨_, rfl⟩
        obtain ⟨hs, hs'⟩ := hs
        obtain rfl := hid hs identity hs'
        obtain ⟨henrolled, hseed⟩ := hserves hs _ hs'
        exact .inr (run_needPsk hs' henrolled hseed hok hnext)
      | request plaintext =>
        have hs : ∃ ts, s = .haveRequest ts plaintext := by
          cases s <;> cases hstep
          exact ⟨_, rfl⟩
        obtain ⟨ts, hs⟩ := hs
        obtain rfl := hreq ts plaintext hs
        exact .inl (run_request hs hnext)
      | done =>
        have hs : s = .done := by
          cases s <;> cases hstep
          rfl
        subst hs
        cases hnext
        exact .inl ⟨.flushing rfl, by simp [Conn.work, Errand.connAt, maxMessageSize], rfl⟩

end Turn

/-- **A read of the connection returns**: bytes are missing, or its session takes them. -/
theorem read {tail : Bytes} (h : ConnShows x s c out rest)
    (hnext : c.next cfg.providers sh (.read bytes) = some (c', limiter, acts))
    (hfit : ∀ phase n out, c.pc = .reading phase n out → (out ++ bytes).length ≤ n)
    (hok : ∃ step,
      (Responder.drive x.psk x.seedR x.response s (out ++ bytes ++ tail)).result = .ok step) :
    rest = [] ∧ (Waits x s c acts c' (out ++ bytes) [] ∨
      Moved x s (out ++ bytes ++ tail) (toldAt s c.pc) acts c' tail) := by
  cases h with
  | top | writing | minting | flushing | closed => cases hnext
  | @reading n _ hstep hlt =>
    refine ⟨rfl, ?_⟩
    have hle := hfit _ _ _ rfl
    simp only [Conn.next, Errand.connAt] at hnext
    split at hnext
    · cases hnext
    · rename_i hne
      have hpos := List.length_pos_iff.mpr fun hnil => hne (.inl hnil)
      split at hnext
      · rename_i hless
        cases hnext
        refine .inl ⟨.reading hstep hless, ?_, tells_nil rfl⟩
        simp only [Conn.work, Errand.connAt, List.length_append] at hless ⊢
        omega
      · rename_i hfull
        have hlen : (out ++ bytes).length = n := by omega
        obtain ⟨step, hok⟩ := hok
        rcases hrecv : Responder.recv s (out ++ bytes) with ⟨s', e | ⟨⟩⟩
        · have hread : n ≤ (out ++ bytes ++ tail).length := by
            rw [List.length_append]
            omega
          simp only [Responder.drive, hstep, Driven.read, if_pos hread, List.take_left' hlen, hrecv,
            Driven.served] at hok
          cases hok
        · rw [hrecv] at hnext
          cases hnext
          exact .inr (Moved.of_recv _ tail hstep hlen hrecv rfl)

/-- **A write of the connection returns**, and nothing is seen of it. -/
theorem wrote (h : ConnShows x s c out rest)
    (hnext : c.next cfg.providers sh (.wrote k) = some (c', limiter, acts)) :
    out = [] ∧ Waits x s c acts c' [] (rest.drop k) := by
  cases h with
  | top | reading | minting | flushing | closed => cases hnext
  | @writing s₀ _ hwrote hne =>
    have hpos := List.length_pos_iff.mpr hne
    simp only [Conn.next, Errand.connAt] at hnext
    split at hnext
    · cases hnext
    · rename_i hk
      rw [not_or, not_lt] at hk
      split at hnext
      · rename_i hlt
        cases hnext
        refine ⟨rfl, .writing hwrote fun hnil => ?_, ?_, tells_nil rfl⟩
        · rw [List.drop_eq_nil_iff] at hnil
          omega
        · simp only [Conn.work, Errand.connAt, List.length_drop]
          omega
      · rename_i hge
        rw [hwrote] at hnext
        cases hnext
        rw [List.drop_eq_nil_of_le (not_lt.mp hge)]
        refine ⟨rfl, .top, ?_, tells_nil rfl⟩
        simp only [Conn.work, Conn.continueWith, Errand.connAt]
        omega

/-- **The provider answers.** -/
theorem minted (h : ConnShows x s c out rest)
    (hnext : c.next cfg.providers sh (.minted (.ok x.outcome)) = some (c', limiter, acts))
    (hok : ∃ step, (Responder.drive x.psk x.seedR x.response s inbox).result = .ok step) :
    out = [] ∧ rest = [] ∧ Moved x s inbox (toldAt s c.pc) acts c' inbox := by
  cases h with
  | top | reading | writing | flushing | closed => cases hnext
  | @minting ts hs =>
    subst hs
    obtain ⟨step, hok⟩ := hok
    refine ⟨rfl, rfl, ?_⟩
    rcases he : Responder.encrypt ts x.response with e | ⟨ts', msg⟩
    · simp [Responder.drive, Responder.step, Responder.setResponse, he, Driven.served] at hok
    · simp only [Conn.next, Errand.connAt, Conn.minted, ← x.response_eq, Responder.setResponse,
        he] at hnext
      cases hnext
      exact Moved.of_drive (Responder.drive_haveRequest he) (by simp) rfl

/-- **The final flush is over.** -/
theorem flushed (h : ConnShows x s c out rest)
    (hnext : c.next cfg.providers sh .flushed = some (c', limiter, acts)) :
    out = [] ∧ rest = [] ∧ Waits x s c acts c' [] [] := by
  cases h with
  | top | reading | writing | minting | closed => cases hnext
  | flushing hs =>
    subst hs
    cases hnext
    exact ⟨rfl, rfl, .closed rfl, by simp [Conn.work, Errand.connAt], rfl⟩

end ConnShows

end Symbolon
