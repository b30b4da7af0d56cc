import Symbolon.Connection
import Symbolon.Lib.Run
import Symbolon.Lib.Segmented

/-!
# Reading an exact number of bytes

`read_exact_n` of `src/daemon.rs`: read into a buffer until `n` bytes are there, and give
up when the stream ends. The buffer is allocated once, with room for `n` bytes, and kept
over the rounds, so after a short read there is still room for `n` bytes and not for the
bytes that are missing. A later read may then return more than is missing, and all of it is
returned.

Whether that happens depends on how the stream arrives. The function reads exactly `n`
bytes if and only if some number of reads ends there
(`Symbolon.readExactN_exact_iff`): then the loop stops at that read, and otherwise it goes
beyond.
-/

namespace Symbolon

open Text

/-! ### The function -/

/-- The loop of `read_exact_n`, with the capacity of the buffer and what has been read. At
the end of the stream a read returns nothing or fails; the loop gives up in either case. -/
def readLoop (n capacity : ℕ) (out : Bytes) (stream : Segmented UInt8) :
    Option Bytes × Segmented UInt8 :=
  if out.length < n then
    let remaining := n - out.length
    let capacity := if capacity < remaining then max capacity (remaining - capacity) else capacity
    let returned := stream.read capacity
    if returned.1 = [] then (none, returned.2)
    else readLoop n capacity (out ++ returned.1) returned.2
  else (some out, stream)
termination_by n - out.length
decreasing_by
  rw [List.length_append]
  exact Nat.sub_lt_sub_left ‹_› (Nat.lt_add_of_pos_right (List.length_pos_iff.mpr ‹_›))

/-- **Read `n` bytes**, with a buffer of some capacity: `Vec::with_capacity(n)` has room for
`n` bytes at least. -/
def readExactN (capacity n : ℕ) (stream : Segmented UInt8) : Option Bytes × Segmented UInt8 :=
  readLoop n capacity [] stream

/-- **What it is for**: exactly the first `n` bytes, and the others are left; or nothing, if
there are fewer. -/
def ReadsExactly (n : ℕ) (stream : Segmented UInt8) (r : Option Bytes × Segmented UInt8) : Prop :=
  if n ≤ stream.content.length then
    r.1 = some (stream.content.take n) ∧ r.2.content = stream.content.drop n
  else r.1 = none

section Loop

variable {n capacity : ℕ} {out : Bytes} {stream : Segmented UInt8}

/-- One round, with a buffer that has room for `n` bytes: it is never enlarged. -/
theorem readLoop_of_lt (hcap : n ≤ capacity) (hlt : out.length < n) :
    readLoop n capacity out stream =
      if (stream.read capacity).1 = [] then (none, (stream.read capacity).2)
      else readLoop n capacity (out ++ (stream.read capacity).1) (stream.read capacity).2 := by
  rw [readLoop, if_pos hlt]
  simp only [if_neg (show ¬capacity < n - out.length by omega)]

theorem readLoop_of_le (hle : n ≤ out.length) :
    readLoop n capacity out stream = (some out, stream) := by
  rw [readLoop, if_neg (Nat.not_lt.mpr hle)]

/-- A stream that is too short ends before there is enough. -/
theorem readLoop_of_short (hcap : n ≤ capacity)
    (hshort : out.length + stream.content.length < n) :
    (readLoop n capacity out stream).1 = none := by
  induction hk : n - out.length using Nat.strong_induction_on generalizing out stream with
  | _ k ih =>
    rw [readLoop_of_lt hcap (by omega)]
    split
    · rfl
    · rename_i hne
      have hpos := List.length_pos_iff.mpr hne
      have hsplit := congrArg List.length (stream.read_append capacity)
      rw [List.length_append] at hsplit
      refine ih (n - (out ++ (stream.read capacity).1).length) ?_ ?_ rfl
      · rw [List.length_append]
        omega
      · rw [List.length_append]
        omega

/-- **The loop stops at `n` bytes if and only if a read does.** -/
theorem readLoop_exact_iff (hcap : n ≤ capacity) (hle : out.length ≤ n)
    (hlong : n ≤ out.length + stream.content.length) :
    ((readLoop n capacity out stream).1 = some (out ++ stream.content.take (n - out.length)) ∧
      (readLoop n capacity out stream).2.content = stream.content.drop (n - out.length)) ↔
      ∃ j, (stream.afterReads capacity j).content = stream.content.drop (n - out.length) := by
  induction hk : n - out.length using Nat.strong_induction_on generalizing out stream with
  | _ k ih =>
    rcases Nat.eq_zero_or_pos k with rfl | hpos
    · -- there is enough already
      rw [readLoop_of_le (by omega)]
      simp only [List.take_zero, List.append_nil, List.drop_zero, and_self, true_iff]
      exact ⟨0, rfl⟩
    have hsplit := stream.read_append capacity
    obtain ⟨chunk, hchunk⟩ : ∃ chunk, (stream.read capacity).1 = chunk := ⟨_, rfl⟩
    obtain ⟨rest, hrest⟩ : ∃ rest, (stream.read capacity).2 = rest := ⟨_, rfl⟩
    have hne : chunk ≠ [] := by
      rw [← hchunk, Ne, Segmented.read_eq_nil_iff (by omega), ← List.length_eq_zero_iff]
      omega
    have hchunkpos := List.length_pos_iff.mpr hne
    rw [readLoop_of_lt hcap (by omega), hchunk, hrest, if_neg hne]
    rw [hchunk, hrest] at hsplit
    have hlen := congrArg List.length hsplit
    rw [List.length_append] at hlen
    -- no read at all does not end after one byte or more
    have hfirst : (∃ j, (stream.afterReads capacity j).content = stream.content.drop k) ↔
        ∃ j, (rest.afterReads capacity j).content = stream.content.drop k := by
      constructor
      · rintro ⟨- | j, hj⟩
        · have hj' := congrArg List.length hj
          rw [Segmented.afterReads, List.length_drop] at hj'
          omega
        · rw [Segmented.afterReads, hrest] at hj
          exact ⟨j, hj⟩
      · rintro ⟨j, hj⟩
        refine ⟨j + 1, ?_⟩
        rwa [Segmented.afterReads, hrest]
    rw [hfirst]
    rcases Nat.lt_or_ge k chunk.length with hover | hfits
    · -- the read returns more than is missing
      rw [readLoop_of_le (by rw [List.length_append]; omega)]
      constructor
      · rintro ⟨hsome, -⟩
        have hsome' := congrArg List.length (Option.some.inj hsome)
        simp only [List.length_append, List.length_take] at hsome'
        omega
      · rintro ⟨j, hj⟩
        have hj' := congrArg List.length hj
        have hle' := rest.length_afterReads_le capacity j
        rw [List.length_drop] at hj'
        omega
    · have hk' : n - (out ++ chunk).length = k - chunk.length := by
        rw [List.length_append]
        omega
      have htake : stream.content.take k = chunk ++ rest.content.take (k - chunk.length) := by
        rw [← hsplit, List.take_append, List.take_of_length_le hfits]
      have hdrop : stream.content.drop k = rest.content.drop (k - chunk.length) := by
        rw [← hsplit, List.drop_append, List.drop_eq_nil_of_le hfits, List.nil_append]
      rw [htake, hdrop, ← List.append_assoc]
      exact ih (k - chunk.length) (by omega) (by rw [List.length_append]; omega)
        (by rw [List.length_append]; omega) hk'

end Loop

/-! ### The connection

The loop of a connection that is reading is this loop, with a buffer of exactly `n` bytes:
what it ends with is what the session receives. -/

/-- **What `read_exact_n` returns is what the session receives.** -/
theorem Conn.recv_of_readLoop {S : Snow} (providers : List Provider) (sh : Shared) {c : Conn S}
    {phase : Phase} {n : ℕ} {out bytes : Bytes} {stream : Segmented UInt8}
    (hpc : c.pc = .reading phase n out) (hlt : out.length < n)
    (h : (readLoop n n out stream).1 = some bytes) :
    ∃ (chunks : List Bytes) (last : Bytes) (c' : Conn S),
      Lts.Run (fun c e c' => Conn.next providers sh c e = some (c', sh.limiter, [])) c
        (chunks.map ConnEvent.read) c' ∧
      c'.pc = .reading phase n (out ++ chunks.flatten) ∧ out ++ chunks.flatten ++ last = bytes ∧
      ∃ r, Conn.next providers sh c' (.read last) = some r ∧ .recv bytes ∈ r.2.2 := by
  induction hk : n - out.length using Nat.strong_induction_on generalizing c out stream with
  | _ k ih =>
    have hroom := stream.length_read_le n
    rw [readLoop_of_lt le_rfl hlt] at h
    split at h
    · cases h
    · rename_i hne
      obtain ⟨chunk, hchunk⟩ : ∃ chunk, (stream.read n).1 = chunk := ⟨_, rfl⟩
      rw [hchunk] at h hne hroom
      have hpos := List.length_pos_iff.mpr hne
      have hguard : ¬(chunk = [] ∨ n < chunk.length) := by simp [hne, hroom]
      have hnext : Conn.next providers sh c (.read chunk) =
          if (out ++ chunk).length < n then
            some ({ c with pc := .reading phase n (out ++ chunk) }, sh.limiter, [])
          else
            some ((c.continueWith (fun _ => phase) (Responder.recv c.sess (out ++ chunk))).1,
              sh.limiter, .recv (out ++ chunk) ::
                (c.continueWith (fun _ => phase) (Responder.recv c.sess (out ++ chunk))).2) := by
        simp only [Conn.next, hpc, if_neg hguard]
      rcases Nat.lt_or_ge (out ++ chunk).length n with hmore | henough
      · rw [if_pos hmore] at hnext
        obtain ⟨chunks, last, c', hrun, hpc', hbytes, hlast⟩ :=
          ih (n - (out ++ chunk).length) (by rw [List.length_append] at hmore ⊢; omega)
            (c := { c with pc := .reading phase n (out ++ chunk) }) rfl hmore h rfl
        refine ⟨chunk :: chunks, last, c', .cons hnext hrun, ?_, ?_, hlast⟩
        · rw [hpc', List.flatten_cons, List.append_assoc]
        · simpa using hbytes
      · rw [if_neg (Nat.not_lt.mpr henough)] at hnext
        rw [readLoop_of_le henough] at h
        obtain rfl : out ++ chunk = bytes := Option.some.inj h
        exact ⟨[], chunk, c, .nil c, by simpa using hpc, by simp, _, hnext, List.mem_cons_self⟩

/-! ### Exact reads -/

/-- **Exactly `n` bytes are read if and only if some number of reads ends there.** With a
buffer that has room for `n` bytes, and however the stream arrives: `read_exact_n` returns
the first `n` bytes and leaves the others, or nothing if the stream is too short, exactly
when the stream is too short or the first so many reads return `n` bytes in all. -/
theorem readExactN_exact_iff {n capacity : ℕ} (hcap : n ≤ capacity) (stream : Segmented UInt8) :
    ReadsExactly n stream (readExactN capacity n stream) ↔
      (n ≤ stream.content.length →
        ∃ j, (stream.afterReads capacity j).content = stream.content.drop n) := by
  unfold ReadsExactly readExactN
  split
  · rename_i hlong
    have hiff := @readLoop_exact_iff n capacity [] stream hcap (Nat.zero_le n)
      (by simpa using hlong)
    simpa [hlong] using hiff
  · rename_i hshort
    have hnone : (readLoop n capacity [] stream).1 = none :=
      readLoop_of_short hcap (by simpa using hshort)
    exact ⟨fun _ hlong => absurd hlong hshort, fun _ => hnone⟩

/-- Three bytes, one after the other. -/
theorem readExactN_exact_iff_dripped :
    ReadsExactly 2 (.ofList [1, 2, 3]) (readExactN 2 2 (.ofList [1, 2, 3])) :=
  (readExactN_exact_iff le_rfl _).mpr fun _ => ⟨2, rfl⟩

/-- Three bytes that arrive as one and then two. -/
def splitStream : Segmented UInt8 := ⟨[[1], [2, 3]], by simp⟩

/-- **A short read, and then a longer one**: of three bytes, two are asked for, and all
three are returned. -/
theorem readExactN_too_many :
    (readExactN 2 2 splitStream).1 = some [1, 2, 3] ∧
      (readExactN 2 2 splitStream).2.content = [] ∧
      ¬ReadsExactly 2 splitStream (readExactN 2 2 splitStream) := by
  have hfirst : splitStream.read 2 = ([1], ⟨[[2, 3]], by simp⟩) := rfl
  have hsecond : Segmented.read ⟨[[2, 3]], by simp⟩ 2 = ([(2 : UInt8), 3], ⟨[], by simp⟩) := rfl
  have hresult : readExactN 2 2 splitStream = (some [1, 2, 3], ⟨[], by simp⟩) := by
    rw [readExactN, readLoop_of_lt le_rfl (by decide), hfirst, if_neg (by simp),
      readLoop_of_lt le_rfl (by decide), hsecond, if_neg (by simp), readLoop_of_le (by decide)]
    rfl
  rw [hresult]
  exact ⟨rfl, rfl, by simp [ReadsExactly, splitStream, Segmented.content]⟩

end Symbolon
