import Symbolon.PlainCodec
import Symbolon.Transport.Stages

/-!
# Agreement

If the broker takes a request from a session that it answered with the key of a client,
then **a session of that client made the request, for this very session of the broker**:
`Symbolon.agreement`. The argument runs the handshake backwards.

* The request decrypted under a key that involves the client's key. By
  `Symbolon.Unforgeable` a session encrypted it, and of all the places where a session
  encrypts, only an initiator that has just read a second message uses a key of this kind
  (`Symbolon.Origin`).
* That second message decrypted as well, so a session encrypted it too: a responder that
  was given a key. The ephemeral keys are fresh, so it is the responder we started from.
* The associated data of the second message is the transcript so far, in which the first
  message stands. So the first message the responder took is the one the initiator made.

Nothing is assumed of the first message itself: anybody can make one, and anybody can
replay one. A replay gets a second message, with an ephemeral key of its own; and an
initiator reads one second message at most.
-/

namespace Symbolon

open Text Lts

variable {S : Snow} {P : Primitives} {F : S.Follows P} {broker : BrokerPublicKey}

/-! ### Who encrypts what -/

/-- **The places where a session encrypts**, with what the session had done before. -/
inductive Origin (F : S.Follows P) (broker : BrokerPublicKey) (pre : List (NetLabel S P)) :
    NetLabel S P → Sealed P → Prop
  /-- An initiator is built. -/
  | msg1 (a : Hello S) (o : Pool.Output (Exchange S P)) :
      Origin F broker pre (.create a.spec, o) (a.sealed1 F broker)
  /-- A responder is given a key. -/
  | msg2 {i : ℕ} {l : Bytes} {x : Exchange S P} {seed : S.Seed} (m : Committed P broker)
      (her : m.er = F.ephemeral seed) (h : Had F (Pool.calls i pre) [l, m.msg1] [m.identity] [] [])
      (hx : x.reply.err = none) :
      Origin F broker pre (.call i (.setPsk m.psk seed), .did x) m.sealed2
  /-- An initiator takes a second message. -/
  | request {j : ℕ} {l out payload ct : Bytes} {er : Ephemeral} {x : Exchange S P}
      (a : Hello S) (hbuilt : ((.create a.spec, .created j) : NetLabel S P) ∈ pre)
      (hout : frame (a.msg1 F broker) = some out) (h : Had F (Pool.calls j pre) [l] [] [] [out])
      (hx : x.reply.err = none)
      (hopen : x.opened = some ⟨P.key .msg2 broker (a.ei F) er a.psk, 0,
        NoiseHs.ad2 broker (a.ei F) (a.sealed1 F broker).ciphertext er, payload, ct⟩) :
      Origin F broker pre (.call j (.recv (er.bytes ++ ct)), .did x)
        (P.seal (P.key .request broker (a.ei F) er a.psk) 0 [] a.request)
  /-- A responder is given a response. -/
  | response {i : ℕ} {plaintext : Bytes} {x : Exchange S P} {ts : NoiseTs}
      (h : ts.isInitiator = false) :
      Origin F broker pre (.call i (.setResponse plaintext), .did x) (ts.sealing P plaintext)

section Origin

variable {pre post : List (NetLabel S P)} {k : NetLabel S P} {o : Sealed P} {key : BrokerPrivateKey}
  {sessions : List (Session S)} {i : ℕ} {c : SessionCall S} {x : Exchange S P}

theorem origin_of_responder {s s' : RState S}
    (hstage : RStage F broker (Pool.calls i pre) s) (hdoes : s.Does c x.reply s')
    (herr : x.reply.err = none) (hseals : s.seals F c = some o) :
    Origin F broker pre (.call i c, .did x) o := by
  rcases hdoes with ⟨-, hidle⟩ | ⟨-, hfatal⟩ | hp
  · obtain rfl := hidle.eq_step herr
    cases hseals
  · exact absurd herr hfatal.err_ne
  · generalize hr : x.reply = r at hp
    cases hp with
    | hsLen | hsBody | ask | writeHs | wroteHs | reqLen | reqBody | request | writeResp
    | wroteResp => cases hseals
    | setPsk hset hwrite hframe =>
      cases hstage with
      | asked m hhs h =>
        obtain ⟨k, rfl, her, rfl, rfl, -⟩ := exists_committed hhs hset hwrite
        simp only [RState.seals, hhs, ← her] at hseals
        obtain rfl : k.sealed2 = o := Option.some.inj hseals
        exact .msg2 k her h herr
      | ended h => exact h.elim
    | setResponse he =>
      cases hstage with
      | answering h =>
        obtain rfl := Option.some.inj hseals
        exact .response h
      | ended h => exact h.elim

theorem origin_of_initiator {s s' : IState S} {a : Hello S}
    (hbuilt : ((.create a.spec, .created i) : NetLabel S P) ∈ pre)
    (hstage : IStage F broker a (Pool.calls i pre) s) (hdoes : s.Does c x.reply s')
    (herr : x.reply.err = none) (hopened : x.opened = s.opens F c)
    (hseals : s.seals F c = some o) : Origin F broker pre (.call i c, .did x) o := by
  rcases hdoes with ⟨-, hidle⟩ | ⟨-, hfatal⟩ | hp
  · obtain rfl := hidle.eq_step herr
    cases hseals
  · exact absurd herr hfatal.err_ne
  · generalize hr : x.reply = r at hp
    cases hp with
    | writeHs1 | wroteHs1 | hs2Len | writeReq | wroteReq | respLen | respBody | take => cases hseals
    | hs2Body hread hinto hencrypt =>
      cases hstage with
      | later h => exact h.elim
      | hs2Body hhs hout h =>
        have hread' := F.readMessage hread
        rw [hhs] at hread'
        obtain ⟨er, ct, rfl, hopening, hhs'⟩ := NoiseHs.read_wrote1 hread'
        have hopening' : (a.hs1 F broker).opening P (er.bytes ++ ct) = _ := hopening
        simp only [IState.opens, if_true, Snow.Follows.openedBy, hread, hhs, hopening'] at hopened
        have hinto' := F.intoTransportMode hinto
        rw [hhs'] at hinto'
        simp only [IState.seals, hread, hinto, ← Except.ok.inj hinto', Option.some.injEq] at hseals
        subst hseals
        exact .request a hbuilt hout h herr hopened

/-- **Everything that is encrypted has an origin.** -/
theorem origin (hrun : Net.Run F key (pre ++ k :: post) sessions)
    (hk : NetLabel.sealed F key k = some o) : Origin F (P.derivePublic key) pre k o := by
  obtain ⟨e, out⟩ := k
  cases e with
  | create spec =>
    cases spec with
    | responder => cases hk
    | initiator identity psk request seed =>
      obtain rfl := Option.some.inj hk
      exact .msg1 ⟨identity, psk, request, seed⟩ out
  | call i c =>
    obtain ⟨spec, s₀, s, s', x, hbuilt, hmake, hcalls, hx, rfl⟩ := Pool.exists_step_of_call hrun
    have hsealed : x.sealed = some o := hk
    cases staged_of_run hmake hcalls with
    | responder hstage =>
      obtain ⟨r', -, hdoes, -, hs⟩ := exchange_responder hx
      rw [hs] at hsealed
      split at hsealed
      · rename_i herr
        exact origin_of_responder hstage hdoes (by simpa using herr) hsealed
      · cases hsealed
    | initiator a hstage =>
      obtain ⟨i', -, hdoes, hopened, hs⟩ := exchange_initiator hx
      rw [hs] at hsealed
      split at hsealed
      · rename_i herr
        exact origin_of_initiator hbuilt hstage hdoes (by simpa using herr) hopened hsealed
      · cases hsealed

end Origin

/-! ### Agreement -/

/-- The request that a session gives out. -/
def NetLabel.given : NetLabel S P → Option (ℕ × Bytes)
  | (.call i _, .did ⟨.step (.ok (.request plaintext)), _, _⟩) => some (i, plaintext)
  | _ => none

/-- A responder asked for the key of this identity, was given this key, and then gives the
request out. -/
def Reaches (F : S.Follows P) (ls : List (NetLabel S P)) (i : ℕ) (identity : Identity) (psk : Psk)
    (p : Bytes) : Prop :=
  ∃ n, ls[n]?.bind NetLabel.given = some (i, p) ∧ identity ∈ (callsOf i (ls.take n)).asked ∧
    psk ∈ ((callsOf i (ls.take n)).keys F).map Prod.fst

theorem NetLabel.given_eq_some {l : NetLabel S P} {i : ℕ} {p : Bytes} (h : l.given = some (i, p)) :
    ∃ c x, l = (.call i c, .did x) ∧ x.reply = .step (.ok (.request p)) := by
  unfold NetLabel.given at h
  split at h
  · cases h
    exact ⟨_, _, rfl, rfl⟩
  · cases h

/-- **Responder `i` and initiator `j` have had one handshake**, and the broker's ephemeral
was `er`. -/
structure Agree (F : S.Follows P) (key : BrokerPrivateKey) (ls : List (NetLabel S P)) (i j : ℕ)
    (a : Hello S) (er : Ephemeral) : Prop where
  /-- The initiator was built from `a`. -/
  built : ((.create a.spec, .created j) : NetLabel S P) ∈ ls
  /-- It produced its first message. -/
  produced : ∃ out, frame (a.msg1 F (P.derivePublic key)) = some out ∧
    out ∈ (callsOf j ls).written
  /-- The responder took that message first. -/
  taken : ∃ l, [l, a.msg1 F (P.derivePublic key)] <+: (callsOf i ls).fed
  /-- The responder was given the initiator's key. -/
  keyed : (a.psk, er) ∈ (callsOf i ls).keys F
  /-- The responder wrote a second message, and the initiator took it. -/
  answered : ∃ l ct out, frame (er.bytes ++ ct) = some out ∧ out ∈ (callsOf i ls).written ∧
    [l, er.bytes ++ ct] <+: (callsOf j ls).fed

theorem Calls.fed_isPrefix {cs cs' : Calls S P} (h : cs <+: cs') : cs.fed <+: cs'.fed := by
  obtain ⟨rest, rfl⟩ := h
  exact ⟨Calls.fed rest, (List.filterMap_append ..).symm⟩

theorem Had.isPrefix_fed {i : ℕ} {pre : List (NetLabel S P)} {f : List Bytes} {a : List Identity}
    {k : List (Psk × Ephemeral)} {w : List Bytes} (h : Had F (callsOf i pre) f a k w)
    (post : List (NetLabel S P)) : f <+: (callsOf i (pre ++ post)).fed := by
  rw [← h.fed]
  exact Calls.fed_isPrefix (Pool.calls_isPrefix (List.prefix_append ..))

/-- The first two things that were taken do not change any more. -/
theorem eq_of_isPrefix {l l' m m' : Bytes} {f : List Bytes} (h : [l, m] <+: f)
    (h' : [l', m'] <+: f) : m = m' := by
  obtain ⟨r, rfl⟩ := h
  obtain ⟨r', hr⟩ := h'
  simp only [List.cons_append, List.nil_append, List.cons.injEq] at hr
  exact hr.2.1.symm

/-- A key that a session took was given to it, and an ephemeral drawn. -/
theorem exists_drawn_of_mem_keys {ls : List (NetLabel S P)} {i : ℕ} {psk : Psk} {e : Ephemeral}
    (h : (psk, e) ∈ (callsOf i ls).keys F) :
    ∃ seed x, ((.call i (.setPsk psk seed), .did x) : NetLabel S P) ∈ ls ∧
      NetLabel.drawn F ((.call i (.setPsk psk seed), .did x) : NetLabel S P) = some e := by
  obtain ⟨⟨c, x⟩, hmem, hc⟩ := List.mem_filterMap.mp h
  have hlabel := Pool.mem_calls_iff.mp hmem
  cases c with
  | setPsk psk' seed =>
    simp only [Option.ite_none_right_eq_some, Option.some.injEq] at hc
    obtain ⟨herr, rfl, rfl⟩ := hc
    exact ⟨seed, x, hlabel, by simp [NetLabel.drawn, herr]⟩
  | step | recv | wrote | setResponse | takeResponse => cases hc

section Agreement

variable {key : BrokerPrivateKey} {ls : List (NetLabel S P)} {sessions : List (Session S)}

/-- Where a responder is when it gives the request out. -/
theorem Reaches.committed {i : ℕ} {identity : Identity} {psk : Psk} {p : Bytes}
    (hrun : Net.Run F key ls sessions) (h : Reaches F ls i identity psk p) :
    ∃ (m : Committed P (P.derivePublic key)) (l ct out : Bytes),
      m.identity = identity ∧ m.psk = psk ∧ frame m.msg2 = some out ∧
      [l, m.msg1] <+: (callsOf i ls).fed ∧ (m.psk, m.er) ∈ (callsOf i ls).keys F ∧
      out ∈ (callsOf i ls).written ∧
      ∃ y ∈ ls, NetLabel.opened y = some (m.request p ct) := by
  obtain ⟨n, hn, hasked, hkeys⟩ := h
  obtain ⟨z, hz, hgiven⟩ := Option.bind_eq_some_iff.mp hn
  obtain ⟨c, x, rfl, hx⟩ := NetLabel.given_eq_some hgiven
  rw [eq_take_append_cons hz] at hrun
  obtain ⟨spec, s₀, s, s', x', -, hmake, hcalls, hex, hxx⟩ := Pool.exists_step_of_call hrun
  cases hxx
  have hpre : callsOf i (ls.take n) <+: callsOf i ls := Pool.calls_isPrefix (List.take_prefix n ls)
  cases staged_of_run hmake hcalls with
  | initiator a hstage =>
    -- an initiator never gives a request out
    obtain ⟨i', -, hdoes, -, -⟩ := exchange_initiator hex
    rw [hx] at hdoes
    rcases hdoes with ⟨-, hidle⟩ | ⟨-, e, he, -⟩ | hp
    · cases hidle with
      | wrongState he => cases he
    · cases he
    · cases hp
  | responder hstage =>
    obtain ⟨r', -, hdoes, -, -⟩ := exchange_responder hex
    rw [hx] at hdoes
    rcases hdoes with ⟨-, hidle⟩ | ⟨-, e, he, -⟩ | hp
    · cases hidle with
      | wrongState he => cases he
    · cases he
    cases hp
    cases hstage with
    | ended h => exact h.elim
    | @request _ l l' out ct _ m _ hout h hopen =>
      obtain ⟨⟨c, y⟩, hy, hyo⟩ := hopen
      rw [h.asked, List.mem_singleton] at hasked
      rw [h.keys, List.map_singleton, List.mem_singleton] at hkeys
      have hfed : [l, m.msg1] <+: (callsOf i (ls.take n)).fed := by
        rw [h.fed]
        exact ⟨[l', ct], rfl⟩
      refine ⟨m, l, ct, out, hasked.symm, hkeys.symm, hout, hfed.trans (Calls.fed_isPrefix hpre),
        ?_, ?_, (.call i c, .did y), List.mem_of_mem_take (Pool.mem_calls_iff.mp hy), hyo⟩
      · have hkey : (m.psk, m.er) ∈ (callsOf i (ls.take n)).keys F := by simp [h.keys]
        exact (hpre.sublist.filterMap _).subset hkey
      · have hwrite : out ∈ (callsOf i (ls.take n)).written := by simp [h.written]
        exact (hpre.sublist.filterMap _).subset hwrite

/-- The second message that an initiator took is the one of the responder that drew the
ephemeral in it, and the transcript says which first message that was an answer to. -/
theorem committed_of_msg2 {i : ℕ} {m : Committed P (P.derivePublic key)} {l ct1 ct payload : Bytes}
    {ei er : Ephemeral} {psk : Psk} {y : NetLabel S P}
    (hP : P.Lawful) (hrun : Net.Run F key ls sessions) (hfresh : Fresh F ls)
    (hun : Unforgeable F key psk ls) (hy : y ∈ ls)
    (hopen : NetLabel.opened y = some ⟨P.key .msg2 (P.derivePublic key) ei er psk, 0,
      NoiseHs.ad2 (P.derivePublic key) ei ct1 er, payload, ct⟩)
    (her : m.er = er) (hfed : [l, m.msg1] <+: (callsOf i ls).fed)
    (hkey : (m.psk, m.er) ∈ (callsOf i ls).keys F) :
    m.ei = ei ∧ m.ct1 = ct1 ∧ m.sealed2.ciphertext = ct := by
  obtain ⟨k, hk, hks⟩ := hun.exists_sealed hy hopen ⟨.msg2, _, ei, er, rfl⟩
  obtain ⟨pre, post, rfl⟩ := List.append_of_mem hk
  generalize ho : (⟨P.key .msg2 (P.derivePublic key) ei er psk, 0,
    NoiseHs.ad2 (P.derivePublic key) ei ct1 er, payload, ct⟩ : Sealed P) = o at hks
  have hlen : 4 = o.ad.length := congrArg (fun s => s.ad.length) ho
  -- of the four origins, the length of the associated data leaves one
  cases origin hrun hks with
  | msg1 => cases hlen
  | request => cases hlen
  | response => cases hlen
  | @msg2 i' l' x seed n hner h hx =>
    obtain ⟨-, -, rfl, rfl, rfl⟩ := hP.key_injective (congrArg Sealed.key ho)
    have hct1 : ct1 = n.ct1 := by
      have had := congrArg Sealed.ad ho
      simp only [Committed.sealed2, Primitives.seal, NoiseHs.ad2, List.cons.injEq] at had
      exact had.2.2.1
    have hct : ct = n.sealed2.ciphertext := congrArg Sealed.ciphertext ho
    -- the same ephemeral, so the same responder
    obtain ⟨seed', x', hmem, hdrawn⟩ := exists_drawn_of_mem_keys hkey
    have hdrawn' : NetLabel.drawn F ((.call i' (.setPsk n.psk seed), .did x) : NetLabel S P) =
        some m.er := by
      simp [NetLabel.drawn, hx, her, hner]
    have hlabel := hfresh.eq_of_drawn hmem hk hdrawn hdrawn'
    obtain ⟨rfl, hcall⟩ := Pool.Event.call.inj (congrArg Prod.fst hlabel)
    obtain ⟨hpsk, -⟩ := SessionCall.setPsk.inj hcall
    have hmsg1 : m.msg1 = n.msg1 := eq_of_isPrefix hfed (h.isPrefix_fed _)
    obtain ⟨hei, hmct⟩ : m.ei = n.ei ∧ m.ct1 = n.ct1 := by
      have htake := congrArg Ephemeral.take hmsg1
      rw [Named.msg1, Named.msg1, Ephemeral.take_append, Ephemeral.take_append] at htake
      exact Prod.mk.inj (Option.some.inj htake)
    refine ⟨hei, hmct.trans hct1.symm, ?_⟩
    rw [hct, Committed.sealed2, Committed.sealed2, hei, hmct, hpsk, her]

/-- An initiator has had a handshake with the responder that gives out a request. -/
theorem Reaches.exists_agree {i : ℕ} {identity : Identity} {psk : Psk} {p : Bytes}
    (hP : P.Lawful) (hrun : Net.Run F key ls sessions) (hfresh : Fresh F ls)
    (hun : Unforgeable F key psk ls) (h : Reaches F ls i identity psk p) :
    ∃ j a er, a.identity = identity ∧ a.psk = psk ∧ a.request = p ∧ Agree F key ls i j a er := by
  obtain ⟨m, l, ct, out, rfl, rfl, hout, hfed, hkey, hwritten, y, hy, hyo⟩ := h.committed hrun
  -- the request was encrypted by an initiator that had just taken a second message
  obtain ⟨k, hk, hks⟩ := hun.exists_sealed hy hyo ⟨.request, _, m.ei, m.er, rfl⟩
  obtain ⟨pre, post, hsplit⟩ := List.append_of_mem hk
  rw [hsplit] at hrun
  generalize ho : m.request p ct = o at hks
  have hlen : 0 = o.ad.length := congrArg (fun s => s.ad.length) ho
  cases origin hrun hks with
  | msg1 => cases hlen
  | msg2 => cases hlen
  | response hts =>
    have hkeys := hP.key_injective (congrArg Sealed.key ho)
    rw [hts] at hkeys
    cases hkeys.1
  | @request j l₂ out₁ payload ct₂ er x a hbuilt hout₁ h₁ hx hopen =>
    obtain ⟨-, -, hei, her, hpsk⟩ := hP.key_injective (congrArg Sealed.key ho)
    have hp : p = a.request := congrArg Sealed.plaintext ho
    rw [← hpsk] at hopen
    rw [← hsplit] at hrun
    obtain ⟨-, hct1, hct2⟩ :=
      committed_of_msg2 hP hrun hfresh hun hk hopen her hfed hkey
    -- what the two sides say of each other is now the same
    have hmsg1 : m.msg1 = a.msg1 F (P.derivePublic key) := by
      rw [Named.msg1, Hello.msg1, hei, hct1]
    have hmsg2 : m.msg2 = er.bytes ++ ct₂ := by rw [Committed.msg2, her, hct2]
    have hidentity : a.identity = m.identity := by
      have hdec := m.decrypts
      rw [hct1, hei] at hdec
      have henc := hP.decrypt_encrypt (P.msg1Key (P.derivePublic key) (a.ei F)) 0
        (NoiseHs.ad1 (P.derivePublic key) (a.ei F)) (encodeIdentityTlv a.identity)
      exact encodeIdentityTlv_injective (Option.some.inj (henc.symm.trans hdec))
    have hcalls : callsOf j pre <+: callsOf j ls := by
      rw [hsplit]
      exact Pool.calls_isPrefix (List.prefix_append ..)
    refine ⟨j, a, er, hidentity, hpsk.symm, hp.symm, ?_, ⟨out₁, hout₁, ?_⟩, ⟨l, hmsg1 ▸ hfed⟩,
      hpsk ▸ her ▸ hkey, ⟨l₂, ct₂, out, hmsg2 ▸ hout, hwritten, ?_⟩⟩
    · rw [hsplit]
      exact List.mem_append_left _ hbuilt
    · have hwrote : out₁ ∈ (callsOf j pre).written := by simp [h₁.written]
      exact (hcalls.sublist.filterMap _).subset hwrote
    · -- the second message is the next thing the initiator took
      have hnext : (callsOf j (pre ++ [(.call j (.recv (er.bytes ++ ct₂)), .did x)])).fed =
          [l₂, er.bytes ++ ct₂] := by
        rw [callsOf, Pool.calls_snoc_self, Calls.fed, List.filterMap_append]
        have hl₂ := h₁.fed
        rw [Calls.fed] at hl₂
        rw [hl₂]
        simp [hx]
      rw [← hnext, hsplit]
      exact Calls.fed_isPrefix (Pool.calls_isPrefix ⟨post, by simp⟩)

/-- **Session agreement.** Take any implementation that keeps to the pattern, and any run of
the sessions of a broker, on any network, in which the ephemeral keys are fresh and nothing
that decrypts under a key of the client `identity` is forged. If responder `i` asked for the
key of the client, was given it, and gives out the request `p`, then there is an initiator of
the client with its key, whose request is `p`, that has had its handshake with responder `i`;
and no other responder that takes the initiator's first message, and is given a key that
nothing is forged under, ever gives out a request. -/
theorem agreement {i : ℕ} {identity : Identity} {psk : Psk} {p : Bytes} (hP : P.Lawful)
    (hrun : Net.Run F key ls sessions) (hfresh : Fresh F ls) (hun : Unforgeable F key psk ls)
    (h : Reaches F ls i identity psk p) :
    ∃ j a er, a.identity = identity ∧ a.psk = psk ∧ a.request = p ∧ Agree F key ls i j a er ∧
      ∀ i' identity' psk' p', Unforgeable F key psk' ls → Reaches F ls i' identity' psk' p' →
        (∃ l, [l, a.msg1 F (P.derivePublic key)] <+: (callsOf i' ls).fed) → i' = i := by
  obtain ⟨j, a, er, hid, hpsk, hp, hagree⟩ := h.exists_agree hP hrun hfresh hun
  refine ⟨j, a, er, hid, hpsk, hp, hagree, fun i' identity' psk' p' hun' h' htaken => ?_⟩
  obtain ⟨j', a', er', -, -, -, hagree'⟩ := h'.exists_agree hP hrun hfresh hun'
  -- the same first message, so the same ephemeral, so the same initiator
  obtain ⟨l, hl⟩ := htaken
  obtain ⟨l', hl'⟩ := hagree'.taken
  have htake := congrArg Ephemeral.take (eq_of_isPrefix hl hl')
  rw [Hello.msg1, Hello.msg1, Ephemeral.take_append, Ephemeral.take_append] at htake
  obtain ⟨hei, -⟩ := Prod.mk.inj (Option.some.inj htake)
  have hbuilt := hfresh.eq_of_drawn hagree'.built hagree.built (e := a.ei F) (by rw [hei]; rfl) rfl
  obtain rfl : j' = j := Pool.Output.created.inj (congrArg Prod.snd hbuilt)
  -- one second message, so the same ephemeral, so the same responder
  obtain ⟨l₂, ct, -, -, -, hfed⟩ := hagree.answered
  obtain ⟨l₂', ct', -, -, -, hfed'⟩ := hagree'.answered
  have htake₂ := congrArg Ephemeral.take (eq_of_isPrefix hfed hfed')
  rw [Ephemeral.take_append, Ephemeral.take_append] at htake₂
  obtain ⟨rfl, -⟩ := Prod.mk.inj (Option.some.inj htake₂)
  obtain ⟨seed, x, hmem, hdrawn⟩ := exists_drawn_of_mem_keys hagree.keyed
  obtain ⟨seed', x', hmem', hdrawn'⟩ := exists_drawn_of_mem_keys hagree'.keyed
  have hlabel := hfresh.eq_of_drawn hmem' hmem hdrawn' hdrawn
  exact (Pool.Event.call.inj (congrArg Prod.fst hlabel)).1

end Agreement

/-! ### A handshake, and a replay -/

instance Sealed.decidableEq [DecidableEq P.Key] : DecidableEq (Sealed P) := fun a b =>
  decidable_of_iff (a.key = b.key ∧ a.nonce = b.nonce ∧ a.ad = b.ad ∧
    a.plaintext = b.plaintext ∧ a.ciphertext = b.ciphertext) (by cases a; cases b; simp)

instance : DecidableEq plainPrimitives.Key :=
  inferInstanceAs (DecidableEq (Option (KeyUse × BrokerPublicKey × Ephemeral × Ephemeral × Psk)))

instance Accounted.decidable [DecidableEq P.Key] (F : S.Follows P) (key : BrokerPrivateKey) :
    ∀ (made : List (Sealed P)) (ls : List (NetLabel S P)), Decidable (Accounted F key made ls)
  | _, [] => .isTrue trivial
  | made, l :: ls =>
    have := Accounted.decidable F key (made ++ (NetLabel.sealed F key l).toList) ls
    inferInstanceAs (Decidable ((∀ o ∈ NetLabel.opened l, o ∈ made) ∧ _))

/-- A client with a request of one byte. -/
def plainClient : Hello (noise plainPrimitives) := ⟨alice, Psk.filled 1, [9], Ephemeral.filled 2⟩

/-- An event of the sessions of a broker with that implementation. -/
abbrev PlainEvent :=
  Pool.Event (SessionSpec (noise plainPrimitives)) (SessionCall (noise plainPrimitives))

/-- A frame arrives at a session. -/
def deliver (i : ℕ) (msg : Bytes) : List PlainEvent :=
  [.call i (.recv (lengthPrefix msg.length)), .call i (.recv msg)]

/-- A session gives something out, and it is written. -/
def emit (i : ℕ) : List PlainEvent := [.call i .step, .call i .wrote]

/-- A responder takes the client's first message and answers it. -/
def plainAnswer (i : ℕ) (er : Ephemeral) : List PlainEvent :=
  deliver i (plainClient.msg1 (noiseFollows _) (plainPrimitives.derivePublic plainKey)) ++
    [.call i .step, .call i (.setPsk (Psk.filled 1) er)] ++ emit i

/-- The client, responder `1`, and responder `2`, to which the first message is replayed. -/
def plainNet : List PlainEvent :=
  [.create plainClient.spec, .create .responder, .create .responder] ++ emit 0 ++
    plainAnswer 1 (Ephemeral.filled 3) ++ plainAnswer 2 (Ephemeral.filled 4) ++
    deliver 0 ((Ephemeral.filled 3).bytes ++ (Psk.filled 1).bytes.take tagLen) ++ emit 0 ++
    deliver 1 ((Psk.filled 1).bytes.take tagLen ++ [9]) ++ [.call 1 .step]

theorem agreement_alice :
    ∃ ls sessions, Net.Run (noiseFollows plainPrimitives) plainKey ls sessions ∧
      Fresh (noiseFollows _) ls ∧ Unforgeable (noiseFollows _) plainKey (Psk.filled 1) ls ∧
      Reaches (noiseFollows _) ls 1 alice (Psk.filled 1) [9] ∧
      ∃ j a er, a.identity = alice ∧ a.request = [9] ∧
        Agree (noiseFollows _) plainKey ls 1 j a er := by
  obtain ⟨ls, u, hrun, hfresh, hacc, hgiven, hasked, hkeys⟩ :=
    Lts.exists_run_of_exec (Net.next (noiseFollows plainPrimitives) plainKey) [] plainNet
      (fun _ ls => (ls.filterMap (NetLabel.drawn (noiseFollows _))).Nodup ∧
        Accounted (noiseFollows _) plainKey [] ls ∧
        ls[23]?.bind NetLabel.given = some (1, [9]) ∧ alice ∈ (callsOf 1 (ls.take 23)).asked ∧
        Psk.filled 1 ∈ ((callsOf 1 (ls.take 23)).keys (noiseFollows _)).map Prod.fst)
      (by decide +kernel)
  have hun := hacc.unforgeable (Psk.filled 1)
  have hreaches : Reaches (noiseFollows _) ls 1 alice (Psk.filled 1) [9] :=
    ⟨23, hgiven, hasked, hkeys⟩
  obtain ⟨j, a, er, hid, -, hreq, hagree, -⟩ :=
    agreement plainPrimitives_lawful hrun hfresh hun hreaches
  exact ⟨ls, u, hrun, hfresh, hun, hreaches, j, a, er, hid, hreq, hagree⟩

end Symbolon
