import Symbolon.Admin
import Symbolon.Daemon.Mint

/-!
# What the command line reads of a response

One function reads the lines of both directions, and it was made for requests: it gives up
when it has `Symbolon.Admin.wireReadBudget` bytes and no line feed among them. It looks at
this only between two reads, so for a long line it depends on where the reads end. The line
comes through **if and only if no read ends inside it at or beyond the budget**
(`Symbolon.Admin.readLine_eq_ok_iff`). A line shorter than the budget comes through however
it arrives; one that is longer by a buffer never does
(`Symbolon.Admin.readLine_eq_sizeCap`).

A response has no bound of its own. That of `list` grows with the client table, so the
command line gets the daemon's verdict however the bytes arrive exactly if both lines of the
exchange are shorter than the budget (`Symbolon.Admin.recovers_iff`), and with enough
clients it never does (`Symbolon.Admin.list_too_long`).
-/

namespace Symbolon

open Text

namespace Admin

/-! ### Reading a line -/

section Line

variable {capacity : ℕ} {accumulated line tail : Bytes} {stream : Segmented UInt8}

theorem findIdx?_lf_eq_none (hlf : lf ∉ line) : line.findIdx? (· == lf) = none := by
  rw [List.findIdx?_eq_none_iff]
  intro b hb
  simp only [beq_eq_false_iff_ne]
  rintro rfl
  exact hlf hb

/-- The first line feed ends the line. -/
theorem findIdx?_lf (hlf : lf ∉ line) (tail : Bytes) :
    (line ++ lf :: tail).findIdx? (· == lf) = some line.length := by
  simp [List.findIdx?_append, findIdx?_lf_eq_none hlf, List.findIdx?_cons]

/-- What has been read is the beginning of a line: read on, unless it is too much. -/
theorem readLineLoop_of_le (hlf : lf ∉ line)
    (hcontent : accumulated ++ stream.content = line ++ lf :: tail)
    (hle : accumulated.length ≤ line.length) :
    readLineLoop capacity accumulated stream =
      if wireReadBudget ≤ accumulated.length then .error .sizeCap
      else if (stream.read capacity).1 = [] then .error .unexpectedEof
      else readLineLoop capacity (accumulated ++ (stream.read capacity).1)
        (stream.read capacity).2 := by
  have hbegin : accumulated <+: line :=
    List.prefix_of_prefix_length_le ⟨stream.content, hcontent⟩ ⟨lf :: tail, rfl⟩ hle
  rw [readLineLoop, findIdx?_lf_eq_none fun hmem => hlf (hbegin.subset hmem)]

/-- What has been read has the line in it: it is returned. -/
theorem readLineLoop_of_lt (hlf : lf ∉ line)
    (hcontent : accumulated ++ stream.content = line ++ lf :: tail)
    (hlt : line.length < accumulated.length) :
    readLineLoop capacity accumulated stream = .ok line := by
  obtain ⟨rest, rfl⟩ : ∃ rest, accumulated = line ++ lf :: rest := by
    rcases List.append_eq_append_iff.mp hcontent with ⟨more, hmore, -⟩ | ⟨more, hmore, htail⟩
    · have hlen := congrArg List.length hmore
      rw [List.length_append] at hlen
      omega
    · cases more with
      | nil =>
        rw [hmore, List.append_nil] at hlt
        exact absurd hlt (Nat.lt_irrefl _)
      | cons b rest =>
        obtain rfl : lf = b := (List.cons.inj htail).1
        exact ⟨rest, hmore⟩
  rw [readLineLoop, findIdx?_lf hlf]
  simp

/-- There is more to read until the line is complete. -/
theorem read_ne_nil (hcap : 0 < capacity)
    (hcontent : accumulated ++ stream.content = line ++ lf :: tail)
    (hle : accumulated.length ≤ line.length) : (stream.read capacity).1 ≠ [] := by
  have hlen := congrArg List.length hcontent
  simp only [List.length_append, List.length_cons] at hlen
  rw [Ne, Segmented.read_eq_nil_iff hcap, ← List.length_eq_zero_iff]
  omega

theorem append_read (hcontent : accumulated ++ stream.content = line ++ lf :: tail) :
    (accumulated ++ (stream.read capacity).1) ++ (stream.read capacity).2.content =
      line ++ lf :: tail := by
  rw [List.append_assoc, stream.read_append, hcontent]

/-- **A line comes through** if no read ends inside it at or beyond the budget. -/
theorem readLineLoop_eq_ok (hcap : 0 < capacity) (hlf : lf ∉ line)
    (hcontent : accumulated ++ stream.content = line ++ lf :: tail)
    (hreads : ∀ j, accumulated.length + stream.delivered capacity j ≤ line.length →
      accumulated.length + stream.delivered capacity j < wireReadBudget) :
    readLineLoop capacity accumulated stream = .ok line := by
  induction hk : stream.content.length using Nat.strong_induction_on
    generalizing accumulated stream with
  | _ k ih =>
    rcases Nat.lt_or_ge line.length accumulated.length with hlt | hle
    · exact readLineLoop_of_lt hlf hcontent hlt
    · have hbudget : accumulated.length < wireReadBudget := hreads 0 hle
      have hne := read_ne_nil hcap hcontent hle
      rw [readLineLoop_of_le hlf hcontent hle, if_neg (Nat.not_le.mpr hbudget), if_neg hne]
      have hpos := List.length_pos_iff.mpr hne
      have hsplit := congrArg List.length (stream.read_append capacity)
      rw [List.length_append] at hsplit
      refine ih _ (by omega) (append_read hcontent) (fun j => ?_) rfl
      rw [List.length_append, Nat.add_assoc]
      exact hreads (j + 1)

/-- **A line does not come through** if a read ends inside it at or beyond the budget. The
induction is on the number of reads. -/
theorem readLineLoop_eq_sizeCap (hcap : 0 < capacity) (hlf : lf ∉ line) {j : ℕ}
    (hcontent : accumulated ++ stream.content = line ++ lf :: tail)
    (hle : accumulated.length + stream.delivered capacity j ≤ line.length)
    (hge : wireReadBudget ≤ accumulated.length + stream.delivered capacity j) :
    readLineLoop capacity accumulated stream = .error .sizeCap := by
  induction j generalizing accumulated stream with
  | zero =>
    have hge' : wireReadBudget ≤ accumulated.length := hge
    rw [readLineLoop_of_le hlf hcontent hle, if_pos hge']
  | succ j ih =>
    have hle' : accumulated.length ≤ line.length := by omega
    rw [readLineLoop_of_le hlf hcontent hle']
    split
    · rfl
    · rw [if_neg (read_ne_nil hcap hcontent hle')]
      rw [Segmented.delivered, ← Nat.add_assoc, ← List.length_append] at hle hge
      exact ih (append_read hcontent) hle hge

/-- A line comes through, or is given up. -/
theorem readLine_cases (hcap : 0 < capacity) (hlf : lf ∉ line)
    (hcontent : stream.content = line ++ lf :: tail) :
    (readLine capacity stream = .ok line ∧ ∀ j, stream.delivered capacity j ≤ line.length →
      stream.delivered capacity j < wireReadBudget) ∨
    (readLine capacity stream = .error .sizeCap ∧ ∃ j, stream.delivered capacity j ≤ line.length ∧
      wireReadBudget ≤ stream.delivered capacity j) := by
  have hstart : [] ++ stream.content = line ++ lf :: tail := hcontent
  by_cases hreads : ∀ j, stream.delivered capacity j ≤ line.length →
      stream.delivered capacity j < wireReadBudget
  · exact .inl ⟨readLineLoop_eq_ok hcap hlf hstart (by simpa using hreads), hreads⟩
  · simp only [not_forall, Nat.not_lt] at hreads
    obtain ⟨j, hle, hge⟩ := hreads
    exact .inr ⟨readLineLoop_eq_sizeCap (j := j) hcap hlf hstart (by simpa using hle)
      (by simpa using hge), j, hle, hge⟩

/-- **Which lines come through**: those inside which no read ends at or beyond the
budget. -/
theorem readLine_eq_ok_iff (hcap : 0 < capacity) (hlf : lf ∉ line)
    (hcontent : stream.content = line ++ lf :: tail) :
    readLine capacity stream = .ok line ↔
      ∀ j, stream.delivered capacity j ≤ line.length →
        stream.delivered capacity j < wireReadBudget := by
  rcases readLine_cases hcap hlf hcontent with ⟨hok, hreads⟩ | ⟨herr, j, hle, hge⟩
  · exact ⟨fun _ => hreads, fun _ => hok⟩
  · rw [herr]
    exact ⟨nofun, fun hreads => absurd (hreads j hle) (Nat.not_lt.mpr hge)⟩

/-- **A line that is longer by a buffer never comes through.** -/
theorem readLine_eq_sizeCap (hcap : 0 < capacity) (hlf : lf ∉ line)
    (hcontent : stream.content = line ++ lf :: tail)
    (hlong : wireReadBudget + capacity ≤ line.length + 1) :
    readLine capacity stream = .error .sizeCap := by
  have hlen : wireReadBudget ≤ stream.content.length := by
    rw [hcontent, List.length_append, List.length_cons]
    omega
  obtain ⟨j, hge, hlt⟩ := Segmented.exists_delivered hcap hlen
  rcases readLine_cases hcap hlf hcontent with ⟨-, hreads⟩ | ⟨herr, -⟩
  · exact absurd (hreads j (by omega)) (Nat.not_lt.mpr hge)
  · exact herr

/-- **A line comes through however it arrives if and only if it is shorter than the
budget.** -/
theorem readLine_forall_iff (hcap : 0 < capacity) (hlf : lf ∉ line) :
    (∀ stream : Segmented UInt8, stream.content = line ++ [lf] →
      readLine capacity stream = .ok line) ↔ line.length < wireReadBudget := by
  constructor
  · intro h
    by_contra hge
    -- one byte at a time, a read ends at the budget
    have hok := h (.ofList (line ++ [lf])) (Segmented.content_ofList _)
    rw [readLine_eq_ok_iff hcap hlf (Segmented.content_ofList _)] at hok
    have hread : (Segmented.ofList (line ++ [lf])).delivered capacity wireReadBudget =
        wireReadBudget := by
      refine Segmented.delivered_ofList hcap ?_
      rw [List.length_append]
      omega
    have hlt := hok wireReadBudget (by rw [hread]; omega)
    rw [hread] at hlt
    exact absurd hlt (Nat.lt_irrefl _)
  · intro hlt stream hcontent
    rw [readLine_eq_ok_iff hcap hlf hcontent]
    intro j hj
    omega

end Line

/-! ### The exchange -/

section Exchange

variable {J : AdminJson} {capacity : ℕ} {command : CliCommand} {q p : Bytes}
  {result : Result J.Value} {request response : Segmented UInt8}

theorem cliRequest_eq_ok_iff :
    cliRequest J command = .ok (q ++ [lf]) ↔ J.requestToVec command.toRequest = .ok q := by
  unfold cliRequest
  split
  · rename_i e he
    simp [he]
  · rename_i bytes hbytes
    simp [hbytes]

/-- A response is one line, and its `ok` field is the verdict. -/
theorem payload_lawful (hJ : J.Lawful) (hp : payload J result = .ok p) :
    lf ∉ p ∧ J.okField p = .ok result.verdict := by
  cases result with
  | ok data => exact hJ.ok hp
  | error e => exact hJ.error hp

theorem writeResponse_of_payload (hp : payload J result = .ok p) :
    writeResponse J result = p ++ [lf] := by
  rw [writeResponse, hp]

/-- A request that comes through is answered with the response to it. -/
theorem handleAdmin_of_ok (hJ : J.Lawful) {dispatch : Request → Result J.Value}
    (hq : J.requestToVec command.toRequest = .ok q) (hread : readLine capacity request = .ok q) :
    handleAdmin J capacity dispatch request = writeResponse J (dispatch command.toRequest) := by
  obtain ⟨-, hne, hback⟩ := hJ.request hq
  simp only [handleAdmin, hread, if_neg hne, hback]

/-- A stream that is over has no line. -/
theorem readLine_of_nil (hcontent : response.content = []) :
    readLine capacity response = .error .unexpectedEof := by
  have hnil : (response.read capacity).1 = [] := by
    have hsplit := response.read_append capacity
    rw [hcontent] at hsplit
    exact (List.append_eq_nil_iff.mp hsplit).1
  rw [readLine, readLineLoop, List.findIdx?_nil]
  simp only [List.length_nil, hnil, if_true]
  rw [if_neg (by decide)]

/-- **The exit code is the verdict**, if the response comes through. -/
theorem exitCode_of_ok (hJ : J.Lawful) (hp : payload J result = .ok p)
    (hread : readLine capacity response = .ok p) {outcome : CliOutcome}
    (hout : cliDispatch J capacity command response = .ok outcome) :
    outcome.exitCode = if result.verdict then 0 else 1 := by
  obtain ⟨-, hok⟩ := payload_lawful hJ hp
  simp only [cliDispatch, hread, isOkResponse, hok] at hout
  cases hverdict : result.verdict with
  | false =>
    rw [hverdict] at hout
    cases hout
    rfl
  | true =>
    rw [hverdict] at hout
    simp only at hout
    split at hout
    · split at hout <;> cases hout
      rfl
    · cases hout
      rfl

/-- **The command line gets the daemon's verdict however the bytes arrive, if and only if
both lines of the exchange are shorter than the budget.** For every state of the tables,
every command, and whatever the handlers get from elsewhere: take the request `q` and the
payload `p` of the response. The command line reads exactly `p`, and finds in it what the
handler decided, for all ways in which the request and the response can be split into
reads, exactly if `q` and `p` are shorter than the budget. And whenever it reads `p`, the code
it exits with is what the handler decided. -/
theorem recovers_iff (hJ : J.Lawful) (hcap : 0 < capacity) (cfg : Setup)
    (brokerPublic : BrokerPublicKey) (t : Tables) (w : World J.Value) (command : CliCommand)
    (hq : cliRequest J command = .ok (q ++ [lf]))
    (hp : payload J (dispatch cfg brokerPublic t w command.toRequest) = .ok p) :
    ((∀ request response : Segmented UInt8, request.content = q ++ [lf] →
      response.content = handleAdmin J capacity (dispatch cfg brokerPublic t w) request →
      readLine capacity response = .ok p ∧
        isOkResponse J p = .ok (dispatch cfg brokerPublic t w command.toRequest).verdict) ↔
      q.length < wireReadBudget ∧ p.length < wireReadBudget) ∧
    ∀ response outcome, readLine capacity response = .ok p →
      cliDispatch J capacity command response = .ok outcome →
      outcome.exitCode =
        if (dispatch cfg brokerPublic t w command.toRequest).verdict then 0 else 1 := by
  rw [cliRequest_eq_ok_iff] at hq
  obtain ⟨hqlf, -⟩ := hJ.request hq
  obtain ⟨hplf, hok⟩ := payload_lawful hJ hp
  have hwritten : ∀ {request}, readLine capacity request = .ok q →
      handleAdmin J capacity (dispatch cfg brokerPublic t w) request = p ++ [lf] := fun hread =>
    (handleAdmin_of_ok hJ hq hread).trans (writeResponse_of_payload hp)
  refine ⟨⟨?_, ?_⟩, fun response outcome hread => exitCode_of_ok hJ hp hread⟩
  · intro h
    have hrequest : q.length < wireReadBudget := by
      rw [← readLine_forall_iff hcap hqlf]
      intro request hcontent
      rcases readLine_cases hcap hqlf hcontent with ⟨hread, -⟩ | ⟨herr, -⟩
      · exact hread
      · -- the daemon closes the connection, and there is no response
        have hclosed : handleAdmin J capacity (dispatch cfg brokerPublic t w) request = [] := by
          rw [handleAdmin, herr]
        obtain ⟨hread, -⟩ := h request (.ofList []) hcontent
          ((Segmented.content_ofList _).trans hclosed.symm)
        rw [readLine_of_nil (Segmented.content_ofList _)] at hread
        cases hread
    refine ⟨hrequest, ?_⟩
    rw [← readLine_forall_iff hcap hplf]
    intro response hresponse
    have hread := (readLine_forall_iff hcap hqlf).mpr hrequest
      (.ofList (q ++ [lf])) (Segmented.content_ofList _)
    exact (h _ response (Segmented.content_ofList _)
      (hresponse.trans (hwritten hread).symm)).1
  · rintro ⟨hrequest, hresponse⟩ request response hcontent hanswer
    have hread := (readLine_forall_iff hcap hqlf).mpr hrequest request hcontent
    rw [hwritten hread] at hanswer
    refine ⟨(readLine_forall_iff hcap hplf).mpr hresponse response hanswer, ?_⟩
    rw [isOkResponse, hok]

end Exchange

/-! ### A codec that keeps its promises

Everything is written as lines of hexadecimal, and these in hexadecimal again, so that
there is no line feed left. -/

/-- The fields of a request. -/
def plainRequest : Request → List Bytes
  | .status => [[0]]
  | .list => [[1]]
  | .pubkey => [[2]]
  | .enroll _ client psk note => [[3], client.str, psk.bytes, plainNote note]
  | .revoke _ client => [[4], client.str]
  | .mint _ client path => [[5], client.str, path]
  | .selfcheck _ => [[6]]

/-- Read a request. -/
def readRequest : List Bytes → Option Request
  | [[0]] => some .status
  | [[1]] => some .list
  | [[2]] => some .pubkey
  | [[3], client, psk, note] =>
    match Identity.parse client, readNote note with
    | .ok client, some note =>
      if h : psk.length = 32 then some (.enroll .github client ⟨psk, h⟩ note) else none
    | _, _ => none
  | [[4], client] => (Identity.parse client).toOption.map (.revoke .github)
  | [[5], client, path] => (Identity.parse client).toOption.map (.mint .github · path)
  | [[6]] => some (.selfcheck .github)
  | _ => none

theorem readRequest_plainRequest (r : Request) : readRequest (plainRequest r) = some r := by
  cases r with
  | status | list | pubkey => rfl
  | enroll provider client psk note =>
    cases provider
    simp [plainRequest, readRequest, Identity.parse_str, readNote_plainNote, psk.len]
  | revoke provider client | mint provider client path =>
    cases provider
    simp [plainRequest, readRequest, Identity.parse_str, Except.toOption]
  | selfcheck provider =>
    cases provider
    rfl

/-- The fields of the data of a success. -/
def plainData : Data Unit → List Bytes
  | .status r => [ascii (toString r.uptimeSec), ascii (toString r.clientCount)]
  | .list clients =>
    clients.flatMap fun e => plainEntry ⟨e.name.str, e.providers, e.enrolledAt, e.note⟩
  | .pubkey brokerPublicKey => [brokerPublicKey]
  | .ack => []
  | .mint r => [r.username, r.password, ascii (toString r.expiresAtUnix)]
  | .selfcheck r => [r.outReqId]

/-- Fields on one line. -/
def plainLine (fields : List Bytes) : Bytes := hexOf (plainLines fields)

/-- The codec. The first byte of a response is its verdict. -/
def plainAdminJson : AdminJson where
  Value := Unit
  requestToVec r := .ok (0x3F :: plainLine (plainRequest r))
  requestFromSlice bytes :=
    match ((hexBytes bytes.tail).bind fun ls => plainFields (lines ls)).bind readRequest with
    | none => .error "not a request"
    | some r => .ok r
  okToVec d := .ok (0x31 :: plainLine (plainData d))
  errorToVec e := .ok (0x30 :: plainLine [e.error])
  okField bytes := .ok (bytes.head? == some 0x31)
  pskToVec psk := .ok (0x31 :: psk)

theorem lf_notMem_plainLine (b : UInt8) (hb : lf ≠ b) (fields : List Bytes) :
    lf ∉ b :: plainLine fields := by
  intro h
  rcases List.mem_cons.mp h with h | h
  · exact hb h
  · exact (hexOf_noTerminator _).1 h

/-- **The assumptions on the codec can be met.** -/
theorem plainAdminJson_lawful : plainAdminJson.Lawful where
  request := by
    rintro r bytes h
    cases h
    refine ⟨lf_notMem_plainLine _ (by decide) _, List.cons_ne_nil _ _, ?_⟩
    simp [plainAdminJson, plainLine, hexBytes_hexOf, plainFields_lines, readRequest_plainRequest]
  ok := by
    rintro d bytes h
    cases h
    exact ⟨lf_notMem_plainLine _ (by decide) _, rfl⟩
  error := by
    rintro e bytes h
    cases h
    exact ⟨lf_notMem_plainLine _ (by decide) _, rfl⟩

theorem length_hexOf (bs : Bytes) : (hexOf bs).length = 2 * bs.length := by
  simp [hexOf, List.length_flatMap, Nat.mul_comm]

theorem length_plainLines (fields : List Bytes) : fields.length ≤ (plainLines fields).length := by
  induction fields with
  | nil => exact Nat.zero_le _
  | cons f fields ih =>
    simp only [plainLines, List.flatMap_cons, List.length_append, List.length_cons,
      List.length_nil] at ih ⊢
    omega

/-- Each client has four fields, each on a line of its own. -/
theorem le_length_list (clients : List ListEntry) :
    8 * clients.length ≤ (plainLine (plainData (.list clients))).length := by
  have hfields : (plainData (.list clients)).length = 4 * clients.length := by
    simp [plainData, List.length_flatMap, plainEntry, Nat.mul_comm]
  have hlines := length_plainLines (plainData (.list clients))
  rw [plainLine, length_hexOf]
  omega

/-! ### A response that comes through, and one that does not -/

/-- The key in the clear. -/
def plainPublic : BrokerPublicKey := plainPrimitives.derivePublic plainKey

/-- A world in which the clients are iterated in this order. -/
def plainWorld (order : Order) : World Unit where
  uptimeSec := 0
  providers := [.github]
  clients := order.clients
  mutation := .ok ()
  minted := .error .timeout
  checked := .error .timeout
  errorChain _ := []

theorem recovers_iff_alice :
    ∃ q p, cliRequest plainAdminJson .list = .ok (q ++ [lf]) ∧
      payload plainAdminJson (dispatch plainSetup plainPublic plainDaemon.state.tables
        (plainWorld (plainOrder [alice])) .list) = .ok p ∧
      ∀ request response : Segmented UInt8, request.content = q ++ [lf] →
        response.content = handleAdmin plainAdminJson chunkCapacity (dispatch plainSetup plainPublic
          plainDaemon.state.tables (plainWorld (plainOrder [alice]))) request →
        readLine chunkCapacity response = .ok p := by
  refine ⟨_, _, rfl, rfl, fun request response hrequest hresponse => ?_⟩
  have hcap : 0 < chunkCapacity := by decide
  have hiff := recovers_iff plainAdminJson_lawful hcap plainSetup plainPublic
    plainDaemon.state.tables (plainWorld (plainOrder [alice])) .list rfl rfl
  exact (hiff.1.mpr ⟨by decide, by decide⟩ request response hrequest hresponse).1

/-- A client whose name is a number in hexadecimal. -/
def numbered (k : ℕ) : Identity where
  str := hexOf [UInt8.ofNat (k / 256), UInt8.ofNat k]
  len := by simp [hexOf, Identity.maxLen]
  charset := by
    intro b hb
    have hdigit : ∀ n < 16, isIdentityByte (hexDigit n) = true := by decide
    obtain ⟨n, hn, rfl⟩ := mem_hexOf hb
    exact hdigit n hn

theorem numbered_inj {j k : ℕ} (hj : j < 65536) (hk : k < 65536)
    (h : numbered j = numbered k) : j = k := by
  have hstr := congrArg (fun c : Identity => hexBytes c.str) h
  simp only [numbered, hexBytes_hexOf, Option.some.injEq, List.cons.injEq, and_true,
    ← UInt8.toNat_inj, UInt8.toNat_ofNat', Nat.reducePow] at hstr
  omega

/-- There are as many distinct clients as one likes, up to 65536. -/
theorem exists_clients {n : ℕ} (hn : n ≤ 65536) :
    ∃ ids : List Identity, ids.Nodup ∧ ids.length = n := by
  refine ⟨(List.range n).map numbered, ?_, by simp⟩
  refine List.Nodup.map_on (fun j hj k hk h => ?_) List.nodup_range
  rw [List.mem_range] at hj hk
  exact numbered_inj (by omega) (by omega) h

theorem enumerates_map {V : Type} (f : Identity → V) {ids : List Identity} (h : ids.Nodup) :
    Finmap.Enumerates (ids.map fun c => (⟨c, f c⟩ : Σ _ : Identity, V))
      (ids.map fun c => (⟨c, f c⟩ : Σ _ : Identity, V)).toFinmap := by
  refine Finmap.enumerates_toFinmap ?_
  have hkeys : (ids.map fun c => (⟨c, f c⟩ : Σ _ : Identity, V)).keys = ids := by
    rw [List.keys, List.map_map]
    exact List.map_id ids
  rw [List.NodupKeys, hkeys]
  exact h

/-- **A list that cannot be read**: with ten thousand clients, a daemon that has just been
started answers `list` with a response that the command line gives up on, however it
arrives. -/
theorem list_too_long :
    ∃ (d : Daemon (noise plainPrimitives)) (w : World plainAdminJson.Value) (q p : Bytes),
      Daemon.Started plainSetup d ∧ Finmap.Enumerates w.clients d.state.tables.clients ∧
      w.clients.length = 10000 ∧
      cliRequest plainAdminJson .list = .ok (q ++ [lf]) ∧ q.length < wireReadBudget ∧
      payload plainAdminJson (dispatch plainSetup plainPublic d.state.tables w .list) = .ok p ∧
      ∀ response : Segmented UInt8, response.content = p ++ [lf] →
        readLine chunkCapacity response = .error .sizeCap := by
  obtain ⟨ids, hnodup, hids⟩ := exists_clients (n := 10000) (by decide)
  have hpsks := enumerates_map (fun _ => Psk.filled 1) hnodup
  have hclients := enumerates_map (fun _ => (⟨[.github], .unixEpoch, none⟩ : ResolvedClient)) hnodup
  refine ⟨⟨plainBoot (plainOrder ids), freshLimiter 0, [], none⟩, plainWorld (plainOrder ids), _, _,
    ⟨plainBoot_started hpsks hclients, rfl, rfl⟩, hclients, ?_, rfl, by decide, rfl, ?_⟩
  · simp [plainWorld, plainOrder, hids]
  · intro response hcontent
    refine readLine_eq_sizeCap (by decide) (lf_notMem_plainLine _ (by decide) _) hcontent ?_
    have hcount : (handleList (plainWorld (plainOrder ids))).length = 10000 := by
      simp [handleList, plainWorld, plainOrder, hids]
    have hlen := le_length_list (handleList (plainWorld (plainOrder ids)))
    rw [hcount] at hlen
    exact Nat.le_trans (by decide) (Nat.add_le_add_right hlen 2)

end Admin

end Symbolon
