import Symbolon.Daemon
import Symbolon.PlainCodec
import Symbolon.Transport.Noise

/-!
# Who gets a credential minted

A connection calls a provider's `mint` at most once, and only with the whole chain of
evidence `Symbolon.Minting` in hand: its own first message decrypted to an identity, that
identity's own key was injected – at a moment when both tables had the identity, the key
being the one in the table at that moment – a frame decrypted in the transport state made
with that key, and its plaintext is a request within the budget, for the host of the
provider and the path that is minted (`Symbolon.mint_only_if_authorised`). This is so in
every run of the daemon: whatever the peers send, however the connections interleave with
each other and with the admin calls, wherever the process dies.
-/

namespace Symbolon

open Text

variable {S : Snow} {cfg : Setup} {d d₀ d₁ d₂ d' : Daemon S} {l : DaemonLabel S}
  {ls pre : List (DaemonLabel S)} {h acts : List Act} {i : ℕ}

/-! ### Reading acts off a run -/

theorem mem_injected_iff {identity : Identity} {psk : Psk} {known : Bool} :
    (identity, psk, known) ∈ injected h ↔ .setPsk identity psk known ∈ h := by
  constructor
  · intro hm
    obtain ⟨a, ha, heq⟩ := List.mem_filterMap.mp hm
    cases a <;> cases heq
    exact ha
  · intro hm
    exact List.mem_filterMap.mpr ⟨_, hm, rfl⟩

theorem mem_mints_of_mem {provider : Provider} {path : Bytes} (hm : .mint provider path ∈ h) :
    (provider, path) ∈ mints h :=
  List.mem_filterMap.mpr ⟨_, hm, rfl⟩

/-- A connection that was just accepted has neither injected a key nor minted. -/
theorem accept_quiet (key : BrokerPrivateKey) : Quiet (Conn.accept S key).2 := by
  unfold Conn.accept
  split
  · exact quiet_nil
  · exact quiet_log_close _

/-- **What a step that injects a key or mints is**: a step of that connection. -/
theorem Daemon.Step.conn_of_acts (hstep : Daemon.Step cfg d l d')
    (hacts : injected (l.acts i) ≠ [] ∨ mints (l.acts i) ≠ []) :
    ∃ c c' e limiter, d.conns[i]? = some c ∧ d'.conns[i]? = some c' ∧
      c.next cfg.providers ⟨d.state.tables, d.limiter⟩ e = some (c', limiter, l.acts i) := by
  obtain hnone | haccept | hmove := hstep.acts_cases i
  · simp [hnone, injected, mints] at hacts
  · have hq : Quiet (Conn.accept S cfg.brokerKey).2 := accept_quiet _
    simp [haccept, hq.injected, hq.mints] at hacts
  · exact hmove

/-- **An own key is injected only while both tables have the identity.** -/
theorem Daemon.Step.tables_of_setPsk {identity : Identity} {psk : Psk}
    (hstep : Daemon.Step cfg d l d') (hm : .setPsk identity psk true ∈ l.acts i) :
    d.state.tables.psks.lookup identity = some psk ∧ identity ∈ d.state.tables.clients := by
  have hinj := mem_injected_iff.mpr hm
  obtain ⟨c, c', e, limiter, -, -, hn⟩ :=
    hstep.conn_of_acts (.inl (List.ne_nil_of_mem hinj))
  obtain ⟨r, w, hd, -⟩ | ⟨identity', psk', known, hd, hk, -⟩ | ⟨provider, path, hacts, -⟩ :=
    next_arm hn
  · rw [hd.injected] at hinj
    cases hinj
  · rw [hd.injected, List.mem_singleton] at hinj
    cases hinj
    exact hk rfl
  · rw [hacts] at hinj
    cases hinj

/-- A step that mints does nothing else. -/
theorem Daemon.Step.acts_of_mint {provider : Provider} {path : Bytes}
    (hstep : Daemon.Step cfg d l d') (hm : .mint provider path ∈ l.acts i) :
    l.acts i = [.mint provider path] := by
  have hmint := mem_mints_of_mem hm
  obtain ⟨c, c', e, limiter, -, -, hn⟩ :=
    hstep.conn_of_acts (.inr (List.ne_nil_of_mem hmint))
  obtain ⟨r, w, hd, -⟩ | ⟨identity, psk, known, hd, -⟩ | ⟨provider', path', hacts, -⟩ :=
    next_arm hn
  · rw [hd.mints] at hmint
    cases hmint
  · rw [hd.mints] at hmint
    cases hmint
  · rw [hacts, List.mem_singleton] at hm
    cases hm
    exact hacts

/-- Where in a run an act of connection `i` was. -/
theorem Daemon.Run.exists_step_of_mem {a : Act} (hrun : Daemon.Run cfg d₀ ls d)
    (ha : a ∈ actsOf i ls) :
    ∃ pre k post d₁ d₂, ls = pre ++ k :: post ∧ Daemon.Run cfg d₀ pre d₁ ∧
      Daemon.Step cfg d₁ k d₂ ∧ a ∈ k.acts i := by
  obtain ⟨k, hk, hak⟩ := List.mem_flatMap.mp ha
  obtain ⟨pre, post, rfl⟩ := List.append_of_mem hk
  obtain ⟨d₁, hpre, hrest⟩ := Lts.run_append_iff.mp hrun
  obtain ⟨d₂, hstep, -⟩ := Lts.run_cons_iff.mp hrest
  exact ⟨pre, k, post, d₁, d₂, rfl, hpre, hstep, hak⟩

/-! ### The summary of a connection, read for its mint -/

variable {key : BrokerPrivateKey} {providers : List Provider}

theorem Summary.length_mints_le (hs : Summary S key providers h) : (mints h).length ≤ 1 := by
  cases hs with
  | nothing hd | keyed _ hd | minting _ hd | answered _ hd =>
    rw [hd.mints]
    simp

/-- A connection that has minted has the evidence. -/
theorem Summary.minting_of_ne_nil (hs : Summary S key providers h) (hm : mints h ≠ []) :
    ∃ (m : Minting S key providers) (l₁ l₂ w : Bytes),
      Did h [l₁, m.msg1, l₂, m.ciphertext] [(m.identity, m.psk, true)] w
        [(m.provider, m.request.path)] := by
  cases hs with
  | nothing hd | keyed _ hd => exact absurd hd.mints hm
  | minting m hd => exact ⟨m, _, _, _, hd⟩
  | answered m hd => exact ⟨m.toMinting, _, _, _, hd⟩

variable (S key providers) in
/-- **What a connection may have written**: nothing; a beginning of its second handshake
message; or a beginning of that message and the response to its one mint, which is the
provider's answer, encrypted in the state the request was decrypted in. The session is that of
the connection: its first message and its request are what was fed, its key is the one that was
injected. -/
inductive Writings (h : List Act) : Prop
  /-- Nothing. -/
  | nothing (hw : sent h = []) : Writings h
  /-- At most the second message. -/
  | msg2 {l₁ : Bytes} {known : Bool} (k : Keyed S key) (hr : [l₁, k.msg1] <+: fed h)
      (hk : injected h = [(k.identity, k.psk, known)]) (hw : sent h <+: k.out) : Writings h
  /-- The second message, and at most the response. -/
  | response {l₁ l₂ : Bytes} (m : Answered S key providers)
      (hr : fed h = [l₁, m.msg1, l₂, m.ciphertext])
      (hk : injected h = [(m.identity, m.psk, true)])
      (hm : mints h = [(m.provider, m.request.path)])
      (ha : .answered (.ok m.outcome) ∈ h) (hw : sent h <+: m.out ++ m.reply) : Writings h

theorem Summary.writings (hs : Summary S key providers h) : Writings S key providers h := by
  cases hs with
  | nothing hd => exact .nothing hd.sent
  | keyed k hd hr hw => exact .msg2 k (hd.fed.symm ▸ hr) hd.injected (hd.sent.symm ▸ hw)
  | @minting l₁ _ _ m hd hw =>
    have hr : [l₁, m.msg1] <+: fed h := by
      rw [hd.fed]
      exact ⟨_, rfl⟩
    exact .msg2 m.toKeyed hr hd.injected (hd.sent.symm ▸ hw)
  | answered m hd hw ha =>
    exact .response m hd.fed hd.injected hd.mints ha (hd.sent.symm ▸ hw)

/-- The evidence at the moment of a mint. -/
theorem Daemon.Run.minting_of_mint {provider : Provider} {path : Bytes}
    (h₀ : Daemon.Started cfg d₀) (hrun : Daemon.Run cfg d₀ pre d) (hstep : Daemon.Step cfg d l d')
    (hm : .mint provider path ∈ l.acts i) :
    ∃ m : Minting S cfg.brokerKey cfg.providers, m.provider = provider ∧ m.request.path = path ∧
      (∃ l₁ l₂, fed (actsOf i pre) = [l₁, m.msg1, l₂, m.ciphertext]) ∧
      injected (actsOf i pre) = [(m.identity, m.psk, true)] := by
  have hacts := hstep.acts_of_mint hm
  obtain ⟨c, c', e, limiter, -, hc', -⟩ :=
    hstep.conn_of_acts (.inr (List.ne_nil_of_mem (mem_mints_of_mem hm)))
  have hs := (Daemon.Run.staged h₀ (hrun.snoc hstep)).stage i c' hc' |>.summary
  rw [actsOf_snoc, hacts] at hs
  obtain ⟨m, l₁, l₂, w, hd⟩ := hs.minting_of_ne_nil (by simp [mints])
  -- the mint is the last act: before it, all the rest of the evidence is there
  have hfed := hd.fed
  have hinj := hd.injected
  have hmints := hd.mints
  simp only [fed, injected, mints, List.filterMap_append, List.filterMap_cons,
    List.filterMap_nil, List.append_nil] at hfed hinj hmints
  rw [← List.nil_append [(m.provider, m.request.path)]] at hmints
  have hlast := List.append_inj_right' hmints rfl
  cases List.head_eq_of_cons_eq hlast
  exact ⟨m, rfl, rfl, ⟨l₁, l₂, hfed⟩, hinj⟩

/-- **A mint happens only on behalf of an authorised client.** Take any run of the daemon
and any of its connections. It mints at most once. Wherever it mints, the evidence
`Symbolon.Minting` is there for its own bytes: what was fed to its session is a length,
the first message, another length and the ciphertext of the request, and nothing else;
exactly one key was injected, and this was done at a step before which the identity was
in both tables, with the key that was in the table then. And all that the connection ever
writes is a beginning of the second message of this session, made with the injected key, followed
by the response to that mint. -/
theorem mint_only_if_authorised (h₀ : Daemon.Started cfg d₀) (hrun : Daemon.Run cfg d₀ ls d)
    (i : ℕ) :
    (mints (actsOf i ls)).length ≤ 1 ∧
    (∀ pre l post provider path, ls = pre ++ l :: post → .mint provider path ∈ l.acts i →
      ∃ m : Minting S cfg.brokerKey cfg.providers, m.provider = provider ∧ m.request.path = path ∧
        (∃ l₁ l₂, fed (actsOf i pre) = [l₁, m.msg1, l₂, m.ciphertext]) ∧
        injected (actsOf i pre) = [(m.identity, m.psk, true)] ∧
        ∃ pre₁ k mid d₁, pre = pre₁ ++ k :: mid ∧ Daemon.Run cfg d₀ pre₁ d₁ ∧
          .setPsk m.identity m.psk true ∈ k.acts i ∧
          d₁.state.tables.psks.lookup m.identity = some m.psk ∧
          m.identity ∈ d₁.state.tables.clients) ∧
    Writings S cfg.brokerKey cfg.providers (actsOf i ls) := by
  have hst := Daemon.Run.staged h₀ hrun
  have hs : Summary S cfg.brokerKey cfg.providers (actsOf i ls) := by
    rcases hi : d.conns[i]? with - | c
    · rw [hst.absent i (List.getElem?_eq_none_iff.mp hi)]
      exact .nothing quiet_nil
    · exact (hst.stage i c hi).summary
  refine ⟨hs.length_mints_le, ?_, hs.writings⟩
  intro pre l post provider path heq hm
  rw [heq] at hrun
  obtain ⟨d₁, hpre, hrest⟩ := Lts.run_append_iff.mp hrun
  obtain ⟨d₂, hstep, -⟩ := Lts.run_cons_iff.mp hrest
  obtain ⟨m, hp, hpath, hfed, hinj⟩ := Daemon.Run.minting_of_mint h₀ hpre hstep hm
  have hset : .setPsk m.identity m.psk true ∈ actsOf i pre := by
    rw [← mem_injected_iff, hinj]
    exact List.mem_singleton_self _
  obtain ⟨pre₁, k, mid, dk, dk', hsplit, hrunk, hstepk, hk⟩ :=
    Daemon.Run.exists_step_of_mem hpre hset
  obtain ⟨hlook, hmem⟩ := hstepk.tables_of_setPsk hk
  exact ⟨m, hp, hpath, hfed, hinj, pre₁, k, mid, dk, hsplit, hrunk, hk, hlook, hmem⟩

/-! ### A client that gets its credential -/

/-- A daemon in the clear, for one host. -/
def plainSetup : Setup := ⟨plainCodecs, plainKey, [⟨.github, ascii "github.com"⟩]⟩

/-- It has just been started, with `alice` enrolled. -/
def plainDaemon : Daemon (noise plainPrimitives) :=
  ⟨plainBoot (plainOrder [alice]), freshLimiter 0, [], none⟩

theorem plainDaemon_started : Daemon.Started plainSetup plainDaemon :=
  ⟨plainBoot_started (by decide) (by decide), rfl, rfl⟩

/-- A turn of connection `i`. -/
def plainTurn (i : ℕ) : DaemonEvent (noise plainPrimitives) :=
  .conn i (.run 0 (.ok (Psk.filled 0)) (Ephemeral.filled 3))

/-- A frame arrives on connection `i` and is processed. -/
def arrive (i : ℕ) (msg : Bytes) : List (DaemonEvent (noise plainPrimitives)) :=
  [.conn i (.read (lengthPrefix msg.length)), plainTurn i, .conn i (.read msg), plainTurn i]

/-- The first message of `alice`. -/
def plainHello : Bytes :=
  (Ephemeral.filled 2).bytes ++ plainPrimitives.encrypt none 0 [] (encodeIdentityTlv alice)

/-- The request of `alice`. -/
def plainAsk : Bytes :=
  (Psk.filled 1).bytes.take tagLen ++ ascii "protocol=https\nhost=github.com\npath=o/r\n\n"

/-- The first connection, up to the end of the handshake. -/
def plainHandshake : List (DaemonEvent (noise plainPrimitives)) :=
  .accept :: plainTurn 0 :: arrive 0 plainHello ++ [plainTurn 0, .conn 0 (.wrote 50), plainTurn 0]

theorem mint_only_if_authorised_alice :
    ∃ pre l d, Daemon.Run plainSetup plainDaemon (pre ++ [l]) d ∧
      .mint ⟨.github, ascii "github.com"⟩ (ascii "o/r") ∈ l.acts 0 ∧
      ∃ m : Minting (noise plainPrimitives) plainSetup.brokerKey plainSetup.providers,
        m.request.path = ascii "o/r" ∧ injected (actsOf 0 pre) = [(m.identity, m.psk, true)] := by
  obtain ⟨ls, u, hrun, hl⟩ :=
    Lts.exists_run_of_exec (Daemon.next plainSetup) plainDaemon
      (plainHandshake ++ arrive 0 plainAsk)
      (fun _ ls => (ls[12]?.map Prod.snd) =
        some (.conn 0 [.mint ⟨.github, ascii "github.com"⟩ (ascii "o/r")]))
      (by decide +kernel)
  obtain ⟨l, hl, ho⟩ := Option.map_eq_some_iff.mp hl
  obtain ⟨s, t, hpre, hstep, -⟩ := hrun.split_at hl
  have hm : .mint ⟨.github, ascii "github.com"⟩ (ascii "o/r") ∈ DaemonLabel.acts 0 l := by
    simp [DaemonLabel.acts, ho]
  have hrun' := hpre.snoc hstep
  obtain ⟨m, -, hpath, -, hinj, -⟩ :=
    (mint_only_if_authorised plainDaemon_started hrun' 0).2.1 _ l [] _ _ rfl hm
  exact ⟨_, l, t, hrun', hm, m, hpath, hinj⟩

end Symbolon
