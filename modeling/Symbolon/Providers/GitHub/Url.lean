import Symbolon.Lib.Url
import Symbolon.Providers.GitHub.Api

/-!
# The URL of a lookup

`resolve_repo_id` pastes the owner and the name of a repository into a URL. Both are made of
letters, digits, `.`, `_` and `-`, so no byte of them means anything in a URL. A whole
segment may, though: `.` and `..` pass the check byte by byte, and are resolved by whoever
parses the URL. The path of the URL is the one that is meant if and only if neither part is
one of them (`Symbolon.GitHub.pathOf_resolveRequest_iff`).
-/

namespace Symbolon

open Text

namespace GitHub

/-- The base as the provider keeps it: `trim_end_matches('/')`. -/
def trimEndSlashes (apiBase : Bytes) : Bytes := apiBase.rdropWhile fun b => b == slash

/-! ### The parts of a path as segments -/

/-- A byte of an owner or a name is unreserved. -/
theorem isUnreserved_of_isValidByte {b : UInt8} (h : isValidByte b = true) :
    Url.isUnreserved b = true := by
  simp only [isValidByte, isAsciiAlphanumeric, Bool.or_eq_true] at h
  simp only [Url.isUnreserved, Bool.or_eq_true]
  tauto

/-- An unreserved byte ends no segment. -/
theorem isPlainByte_of_isUnreserved {b : UInt8} (h : Url.isUnreserved b = true) :
    Url.isPlainByte b = true := by
  simp only [Url.isUnreserved, Url.isPlainByte, Url.isSeparator, Url.isDelimiter, Bool.or_eq_true,
    Bool.and_eq_true, decide_eq_true_eq, beq_iff_eq, Bool.not_eq_true', Bool.or_eq_false_iff,
    beq_eq_false_iff_ne, UInt8.le_iff_toNat_le, UInt8.lt_iff_toNat_lt, ← UInt8.toNat_inj,
    UInt8.reduceToNat, ne_eq] at h ⊢
  omega

theorem isUnreserved_of_isValidPart {s : Bytes} (h : isValidPart s = true) :
    ∀ b ∈ s, Url.isUnreserved b = true := fun b hb =>
  isUnreserved_of_isValidByte (List.all_eq_true.mp (Bool.and_eq_true_iff.mp h).2 b hb)

/-- Neither `.` nor `..`. -/
def NotDots (s : Bytes) : Prop := s ≠ ascii "." ∧ s ≠ ascii ".."

section Segments

variable {R : Url.Rules} {s : Bytes}

/-- A part of a path is a plain segment exactly if it is not a dot segment. -/
theorem isPlain_iff_notDots (h : ∀ b ∈ s, Url.isUnreserved b = true) :
    R.IsPlain s ↔ NotDots s := by
  rw [Url.Rules.IsPlain, NotDots, Bool.eq_false_iff, Bool.eq_false_iff, Ne,
    R.isSingleDot_unreserved s h, Ne, R.isDoubleDot_unreserved s h]

/-- A dot segment makes a path no longer, unless it is the last. -/
theorem length_push_le (h : ∀ b ∈ s, Url.isUnreserved b = true) (hdots : ¬NotDots s)
    (path : List Bytes) : (Url.push R path s false).length ≤ path.length := by
  rw [← isPlain_iff_notDots (R := R) h] at hdots
  unfold Url.push
  split
  · simp
  · split
    · simp
    · rename_i hdouble hsingle
      exact absurd ⟨Bool.eq_false_iff.mpr hsingle, Bool.eq_false_iff.mpr hdouble⟩ hdots

theorem length_push_le_succ (path : List Bytes) :
    (Url.push R path s true).length ≤ path.length + 1 := by
  unfold Url.push
  split
  · simp
  · split <;> simp

/-- **Two segments after a path stay as they are exactly if neither is a dot segment.** -/
theorem resolve_pair_iff {owner repo : Bytes} (howner : ∀ b ∈ owner, Url.isUnreserved b = true)
    (hrepo : ∀ b ∈ repo, Url.isUnreserved b = true) (path : List Bytes) :
    Url.resolve R path [owner, repo] = path ++ [owner, repo] ↔ NotDots owner ∧ NotDots repo := by
  have hresolve : Url.resolve R path [owner, repo] =
      Url.push R (Url.push R path owner false) repo true := rfl
  rw [hresolve]
  by_cases hplain : NotDots owner
  · rw [Url.push_of_isPlain ((isPlain_iff_notDots howner).mpr hplain),
      R.encode_unreserved owner howner]
    by_cases hplain' : NotDots repo
    · rw [Url.push_of_isPlain ((isPlain_iff_notDots hrepo).mpr hplain'),
        R.encode_unreserved repo hrepo]
      simp [hplain, hplain']
    · -- the last segment is lost, or left empty
      simp only [hplain, hplain', and_false, iff_false]
      unfold Url.push
      split
      · intro h
        have hlen := congrArg List.length h
        simp at hlen
      · split
        · rename_i hsingle
          rw [(R.isSingleDot_unreserved repo hrepo).mp hsingle]
          simp [ascii]
        · rename_i hdouble hsingle
          exact absurd ((isPlain_iff_notDots (R := R) hrepo).mp
            ⟨Bool.eq_false_iff.mpr hsingle, Bool.eq_false_iff.mpr hdouble⟩) hplain'
  · -- the path is too short for two more segments
    simp only [hplain, false_and, iff_false]
    intro h
    have hlen := congrArg List.length h
    have hfirst := length_push_le (R := R) howner hplain path
    have hsecond := length_push_le_succ (R := R) (s := repo) (Url.push R path owner false)
    rw [List.length_append, List.length_cons, List.length_singleton] at hlen
    omega

end Segments

/-! ### The URL -/

/-- **The URL of a lookup is for the repository that was named, if and only if neither its
owner nor its name is a dot segment.** For every path that is accepted (a `RepoPath` is
one, `RepoPath.parse_eq_ok_iff`), every base that is an absolute URL without dot segments
(slashes at its end are trimmed), and every standard by which the URL may be parsed: the
path of the URL is the path of the base, followed by exactly `repos`, the owner and the
name. -/
theorem pathOf_resolveRequest_iff (R : Url.Rules) {B : Url.Absolute}
    (hB : ∀ seg ∈ B.segments, R.IsPlain seg) {S : Setup} (hS : S.apiBase = trimEndSlashes B.str)
    (p : RepoPath) (token : Bytes) :
    Url.pathOf R (S.resolveRequest token p).url =
        some (B.trimmed.segments.map R.encode ++ [ascii "repos", p.owner, p.repo]) ↔
      NotDots p.owner ∧ NotDots p.repo := by
  have howner := isUnreserved_of_isValidPart p.owner_ok
  have hrepo := isUnreserved_of_isValidPart p.repo_ok
  have hrepos : ∀ b ∈ ascii "repos", Url.isUnreserved b = true := List.all_eq_true.mp (by decide)
  have hparts : ∀ seg ∈ [ascii "repos", p.owner, p.repo], ∀ b ∈ seg,
      Url.isPlainByte b = true := by
    intro seg hseg b hb
    simp only [List.mem_cons, List.not_mem_nil, or_false] at hseg
    rcases hseg with rfl | rfl | rfl
    · exact isPlainByte_of_isUnreserved (hrepos b hb)
    · exact isPlainByte_of_isUnreserved (howner b hb)
    · exact isPlainByte_of_isUnreserved (hrepo b hb)
  -- the URL that is built is the base with three more segments
  have hurl : (S.resolveRequest token p).url = (B.trimmed.extend _ hparts).str := by
    have htrim : S.apiBase = B.trimmed.str := hS.trans B.rdropWhile_str
    have hpasted : ascii "/repos/" = 0x2F :: ascii "repos" ++ [0x2F] := by decide
    rw [Url.Absolute.str_extend, ← htrim, Setup.resolveRequest, hpasted]
    simp [Url.Absolute.joined, RepoPath.str]
  have hplain : ∀ seg ∈ B.trimmed.segments, R.IsPlain seg := fun seg hseg =>
    hB seg (( List.rdropWhile_prefix _ _).subset hseg)
  have hplain' : R.IsPlain (ascii "repos") :=
    (isPlain_iff_notDots hrepos).mpr ⟨by decide, by decide⟩
  have hsegs : (B.trimmed.extend _ hparts).segments =
      B.trimmed.segments ++ [ascii "repos", p.owner, p.repo] := rfl
  rw [hurl, Url.Absolute.pathOf_str _ (by simp [hsegs]), hsegs,
    Url.resolve_append hplain (by simp), List.nil_append, Url.resolve_cons (by simp),
    Url.push_of_isPlain hplain', R.encode_unreserved _ hrepos, Option.some.injEq]
  have hpair := resolve_pair_iff (R := R) howner hrepo
    (B.trimmed.segments.map R.encode ++ [ascii "repos"])
  rwa [List.append_assoc] at hpair

/-- The base that is configured unless one says otherwise. -/
def publicBase : Url.Absolute where
  secure := true
  authority := ascii "api.github.com"
  segments := []
  authority_ne := by decide
  authority_ok := List.all_eq_true.mp (by decide)
  segments_ok := by simp

/-- A provider with that base. -/
def publicSetup : Setup where
  apiBase := ascii "https://api.github.com"
  installationId := 7
  accepts _ := true
  jsonRepo _ := none
  jsonMint _ := none
  jsonMessage _ := none
  rfc3339 _ := none

theorem pathOf_resolveRequest_octocat :
    ∃ p, RepoPath.parse (ascii "octocat/hello") = .ok p ∧
      Url.pathOf Url.standard (publicSetup.resolveRequest [] p).url =
        some [ascii "repos", ascii "octocat", ascii "hello"] := by
  refine ⟨⟨ascii "octocat", ascii "hello", by decide, by decide⟩, by decide, ?_⟩
  have hB : ∀ seg ∈ publicBase.segments, Url.standard.IsPlain seg := by simp [publicBase]
  have hS : publicSetup.apiBase = trimEndSlashes publicBase.str := by decide
  exact (pathOf_resolveRequest_iff Url.standard hB hS _ []).mpr
    ⟨⟨by decide, by decide⟩, by decide, by decide⟩

/-- **A path that leads elsewhere**: `../app` is accepted, and the URL of its lookup is
that of the App itself. -/
theorem pathOf_resolveRequest_escapes :
    ∃ p, RepoPath.parse (ascii "../app") = .ok p ∧
      (publicSetup.resolveRequest [] p).url = ascii "https://api.github.com/repos/../app" ∧
      Url.pathOf Url.standard (publicSetup.resolveRequest [] p).url = some [ascii "app"] :=
  ⟨⟨ascii "..", ascii "app", by decide, by decide⟩, by decide, by decide, by decide⟩

end GitHub

end Symbolon
