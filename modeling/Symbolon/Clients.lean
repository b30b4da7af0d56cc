import Symbolon.PskStore

/-!
# The client list and the two tables

The second state file, `clients.json`: one entry per enrolled client with its
providers, the enrolment time and the operator's note. This file has the entry types
of `src/config.rs`, the conversion into the in-memory table and the rendering of
`src/daemon.rs`, and what a start of the daemon reads off a disk
(`Symbolon.acquire`).

JSON and RFC 3339 are third-party code: `Symbolon.SerdeJson` is the pair of entry
points, and `Symbolon.SerdeJson.Lawful` says that a client list with identities for names is
UTF-8 when it is written out, and is read back unchanged. On top of that the table round trip
is the code's own: `Symbolon.loadClients_renderClientsDoc` goes through the name strings, the
identity parser and the duplicate check.
-/

namespace Symbolon

open Text

/-! ### Entries -/

/-- The providers a client can be enrolled with. -/
inductive ProviderKind
  /-- GitHub, the only one there is. -/
  | github
  deriving DecidableEq

/-- RFC 3339 has the years 0 to 9999. -/
def Representable (unixNanos : ℤ) : Prop :=
  -62167219200000000000 ≤ unixNanos ∧ unixNanos < 253402300800000000000

instance : DecidablePred Representable := fun _ => inferInstanceAs (Decidable (_ ∧ _))

/-- An instant that can be written in RFC 3339, as the `time` crate compares it: nanoseconds since
the Unix epoch. The clock of the daemon is taken to be in these years. -/
structure OffsetDateTime where
  /-- Nanoseconds since the epoch. -/
  unixNanos : ℤ
  /-- They can be written. -/
  representable : Representable unixNanos
  deriving DecidableEq

theorem representable_zero : Representable 0 := by decide

/-- `UNIX_EPOCH`. -/
def OffsetDateTime.unixEpoch : OffsetDateTime := ⟨0, representable_zero⟩

/-- One client of the file, its name still an unchecked string. -/
structure ClientEntry where
  /-- The name. -/
  name : Bytes
  /-- The providers it is enrolled with. -/
  providers : List ProviderKind
  /-- When it was enrolled. -/
  enrolledAt : OffsetDateTime
  /-- The operator's note. -/
  note : Option Note
  deriving DecidableEq

/-- The whole of `clients.json`. -/
structure ClientsFile where
  /-- The entries, in file order. -/
  clients : List ClientEntry
  deriving DecidableEq

/-- A client of the in-memory table; the identity is the key of the table. -/
structure ResolvedClient where
  /-- The providers it is enrolled with. -/
  providers : List ProviderKind
  /-- When it was enrolled. -/
  enrolledAt : OffsetDateTime
  /-- The operator's note. -/
  note : Option Note
  deriving DecidableEq

/-- The message of a JSON error. -/
abbrev SerdeError := String

/-- The two entry points of `serde_json` the daemon uses on the client list. -/
structure SerdeJson where
  /-- `serde_json::to_vec_pretty`. -/
  toVecPretty : ClientsFile → Except SerdeError Bytes
  /-- `serde_json::from_str`. -/
  fromStr : Bytes → Except SerdeError ClientsFile

/-- Serialising a client list succeeds, gives UTF-8, and reads back unchanged, if its names are
identities. -/
structure SerdeJson.Lawful (J : SerdeJson) : Prop where
  /-- The round trip. -/
  roundTrip : ∀ file : ClientsFile, (∀ entry ∈ file.clients, ∃ c : Identity, entry.name = c.str) →
    ∃ bytes, J.toVecPretty file = .ok bytes ∧ fromUtf8 bytes = .ok bytes ∧
      J.fromStr bytes = .ok file

/-- The third-party codecs of the two state files. -/
structure Codecs where
  /-- The codec of keys. -/
  hex : HexCrate
  /-- The codec of the client list. -/
  json : SerdeJson

/-- Both codecs behave as documented. -/
structure Codecs.Lawful (C : Codecs) : Prop where
  /-- The codec of keys. -/
  hex : C.hex.Lawful
  /-- The codec of the client list. -/
  json : C.json.Lawful

/-! ### Loading -/

/-- Why `clients.json` could not be loaded. -/
inductive LoadClientsError
  /-- The file does not exist. -/
  | notFound
  /-- The file is not UTF-8. -/
  | utf8 (validUpTo : ℕ)
  /-- The file is not a client list. -/
  | parse (message : SerdeError)
  deriving DecidableEq

/-- Why the daemon does not start, as far as its two state files go. -/
inductive DaemonError
  /-- The client list could not be loaded. -/
  | loadClients (source : LoadClientsError)
  /-- The PSK file could not be loaded. -/
  | loadPsks (source : PskStoreError)
  /-- Two entries of the client list have one name. -/
  | duplicateClientName (name : Identity)
  /-- A name of the client list is not an identity. -/
  | invalidClientName (name : Bytes) (source : IdentityError)
  deriving DecidableEq

/-- The loop of the conversion of a client list into a table. -/
def resolveInto (table : Table ResolvedClient) :
    List ClientEntry → Except DaemonError (Table ResolvedClient)
  | [] => .ok table
  | entry :: rest =>
    match Identity.parse entry.name with
    | .error source => .error (.invalidClientName entry.name source)
    | .ok key =>
      -- the source inserts first and looks at what was replaced; a replaced entry is an
      -- error either way
      if key ∈ table then .error (.duplicateClientName key)
      else resolveInto (table.insert key ⟨entry.providers, entry.enrolledAt, entry.note⟩) rest

/-- `TryFrom<ClientsFile> for HashMap<Identity, ResolvedClient>`. -/
def ClientsFile.resolve (file : ClientsFile) : Except DaemonError (Table ResolvedClient) :=
  resolveInto ∅ file.clients

/-- Load and parse `clients.json`; a missing file is an error. -/
def loadClientsFile (J : SerdeJson) : Option Bytes → Except DaemonError ClientsFile
  | none => .error (.loadClients .notFound)
  | some bytes =>
    match fromUtf8 bytes with
    | .error validUpTo => .error (.loadClients (.utf8 validUpTo))
    | .ok text =>
      match J.fromStr text with
      | .error message => .error (.loadClients (.parse message))
      | .ok file => .ok file

/-- The client table a file holds. -/
def loadClients (J : SerdeJson) (file : Option Bytes) : Except DaemonError (Table ResolvedClient) :=
  match loadClientsFile J file with
  | .error e => .error e
  | .ok file => file.resolve

/-- Load and parse the PSK file; a missing file is an empty store. -/
def loadPskStore (H : HexCrate) : Option Bytes → Except DaemonError PskStore
  | none => .ok ∅
  | some bytes =>
    match fromUtf8 bytes with
    | .error validUpTo => .error (.loadPsks (.utf8 validUpTo))
    | .ok text =>
      match PskStore.parse H text with
      | .error source => .error (.loadPsks source)
      | .ok store => .ok store

/-- The two tables: which keys are known, and which clients are enrolled. -/
structure Tables where
  /-- Identity to key. -/
  psks : PskStore
  /-- Identity to client. -/
  clients : Table ResolvedClient
  deriving DecidableEq

/-- **An identity is authorised** when it is in both tables. -/
def Tables.Authorises (t : Tables) (c : Identity) : Prop := c ∈ t.psks ∧ c ∈ t.clients

instance (t : Tables) (c : Identity) : Decidable (t.Authorises c) :=
  inferInstanceAs (Decidable (_ ∧ _))

/-- The two state files, by their contents; `none` is a file that does not exist. -/
structure Disk where
  /-- The PSK file. -/
  psks : Option Bytes
  /-- The client list. -/
  clients : Option Bytes
  deriving DecidableEq

/-- What a start of the daemon reads off the disk: the client list first, then the
keys. -/
def acquire (C : Codecs) (disk : Disk) : Except DaemonError Tables :=
  match loadClients C.json disk.clients with
  | .error e => .error e
  | .ok clients =>
    match loadPskStore C.hex disk.psks with
    | .error e => .error e
    | .ok psks => .ok ⟨psks, clients⟩

theorem acquire_eq_ok_iff {C : Codecs} {disk : Disk} {t : Tables} :
    acquire C disk = .ok t ↔
      loadPskStore C.hex disk.psks = .ok t.psks ∧
        loadClients C.json disk.clients = .ok t.clients := by
  obtain ⟨psks, clients⟩ := t
  rcases hc : loadClients C.json disk.clients with e | cl <;>
    rcases hp : loadPskStore C.hex disk.psks with e' | ps <;>
    simp [acquire, hc, hp]

/-! ### Rendering -/

/-- The file entry of a table entry. -/
def toClientEntry (e : Σ _ : Identity, ResolvedClient) : ClientEntry :=
  ⟨e.1.str, e.2.providers, e.2.enrolledAt, e.2.note⟩

/-- Build the bytes of `clients.json` from the table, in the order the map iterates
it, leaving out `skip`. -/
def renderClientsDoc (J : SerdeJson) (order : List (Σ _ : Identity, ResolvedClient))
    (skip : Option Identity) : Except SerdeError Bytes :=
  J.toVecPretty ⟨(order.filter fun e => some e.1 ≠ skip).map toClientEntry⟩

theorem resolveInto_map_toClientEntry {order : List (Σ _ : Identity, ResolvedClient)} :
    ∀ {table table' : Table ResolvedClient}, table.collectInto order = some table' →
      resolveInto table (order.map toClientEntry) = .ok table' := by
  induction order with
  | nil =>
    intro table table' h
    simp only [Finmap.collectInto, Option.some.injEq] at h
    subst h
    rfl
  | cons e order ih =>
    intro table table' h
    simp only [Finmap.collectInto] at h
    by_cases hmem : e.1 ∈ table
    · rw [if_pos hmem] at h
      cases h
    · rw [if_neg hmem] at h
      simp only [List.map_cons, resolveInto, toClientEntry, Identity.parse_str, if_neg hmem]
      exact ih h

/-- The table without a skipped identity. -/
def dropSkipped (clients : Table ResolvedClient) : Option Identity → Table ResolvedClient
  | none => clients
  | some c => clients.erase c

theorem enumerates_filter_skip {order : List (Σ _ : Identity, ResolvedClient)}
    {clients : Table ResolvedClient} (h : Finmap.Enumerates order clients)
    (skip : Option Identity) :
    Finmap.Enumerates (order.filter fun e => some e.1 ≠ skip) (dropSkipped clients skip) := by
  cases skip with
  | none => simpa [dropSkipped] using h
  | some c => simpa [dropSkipped] using h.filter_ne c

/-- **A rendered client list loads as the table it was rendered from**, less the
skipped identity, in whatever order the map was iterated. -/
theorem loadClients_renderClientsDoc {J : SerdeJson} (hJ : J.Lawful)
    {order : List (Σ _ : Identity, ResolvedClient)} {clients : Table ResolvedClient}
    (h : Finmap.Enumerates order clients) (skip : Option Identity) :
    ∃ bytes, renderClientsDoc J order skip = .ok bytes ∧
      loadClients J (some bytes) = .ok (dropSkipped clients skip) := by
  have hnames : ∀ entry ∈ (order.filter fun e => some e.1 ≠ skip).map toClientEntry,
      ∃ c : Identity, entry.name = c.str := by
    intro entry hentry
    obtain ⟨e, -, rfl⟩ := List.mem_map.mp hentry
    exact ⟨e.1, rfl⟩
  obtain ⟨bytes, henc, hutf, hdec⟩ := hJ.roundTrip ⟨_⟩ hnames
  refine ⟨bytes, henc, ?_⟩
  simp only [loadClients, loadClientsFile, hutf, hdec, ClientsFile.resolve]
  exact resolveInto_map_toClientEntry (enumerates_filter_skip h skip).collect_eq

/-- **A rendered store loads as itself.** -/
theorem loadPskStore_render {H : HexCrate} (hH : H.Lawful) {order : List (Σ _ : Identity, Psk)}
    {store : PskStore} (h : Finmap.Enumerates order store) :
    loadPskStore H (some (PskStore.render H order)) = .ok store := by
  simp only [loadPskStore, fromUtf8_of_ascii fun b hb => PskStore.render_lt hH hb,
    PskStore.parse_render hH h]

end Symbolon
