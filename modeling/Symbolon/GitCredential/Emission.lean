import Symbolon.GitCredential.Grammar

/-!
# What git reads of a response

A response is written into a buffer without a check, and its user name and its password are
any strings that `Response::new` has let pass: they may contain `=`, or look like other
attributes. This file reads the block as git does – **lines up to the first empty one, each
split at its first `=`** (`Symbolon.readBlock`) – and finds in it the attributes that were
meant (`Symbolon.Response.attributes`), and nothing after it.

`Response::encode` is modelled as it runs, on the buffer, with the conversion of the expiry
that would panic on an instant before the epoch (`Symbolon.Response.encodeInto`).
-/

namespace Symbolon

open Text Request

/-! ### Reading a block -/

/-- The lines of a block, up to the empty one, and the lines after that. A line without `=`,
or no empty line, is an error. -/
def readAttributes : List Bytes → Option (List (Bytes × Bytes) × List Bytes)
  | [] => none
  | line :: lines =>
    if line = [] then some ([], lines)
    else match splitOnce 0x3D line, readAttributes lines with
      | some attr, some (attrs, rest) => some (attr :: attrs, rest)
      | _, _ => none

/-- **What git reads**: keys and values, and the text after the empty line. -/
def readBlock (text : Bytes) : Option (List (Bytes × Bytes) × Bytes) :=
  (readAttributes (text.splitOn lf)).map fun (attrs, rest) => (attrs, [lf].intercalate rest)

/-- The key and the value of an attribute. -/
def Request.Attribute.pair (a : Attribute) : Bytes × Bytes := (a.key, a.value)

theorem readAttributes_lines (attrs : List Attribute) (rest : List Bytes) :
    readAttributes (attrs.map Attribute.line ++ [] :: rest) =
      some (attrs.map Attribute.pair, rest) := by
  induction attrs with
  | nil => rfl
  | cons a attrs ih =>
    have hsplit : splitOnce 0x3D a.line = some a.pair := splitOnce_append a.eq_notMem a.value
    rw [List.map_cons, List.cons_append, readAttributes, if_neg a.line_ne_nil, hsplit, ih]
    rfl

/-- **A block that was written line by line is read back**, up to its empty line. -/
theorem readBlock_render (attrs : List Attribute) (rest : Bytes) :
    readBlock (render attrs ++ lf :: rest) = some (attrs.map Attribute.pair, rest) := by
  have hsplit : (render attrs ++ lf :: rest).splitOn lf =
      attrs.map Attribute.line ++ [] :: rest.splitOn lf := by
    rw [splitOn_render_append, List.splitOn_cons_eq_if_modifyHead, if_pos (by simp)]
  rw [readBlock, hsplit, readAttributes_lines]
  simp only [Option.map_some, List.intercalate_splitOn]

/-! ### Responses -/

namespace Response

/-- `SystemTime::duration_since(UNIX_EPOCH)`, in nanoseconds: there is none before the
epoch. -/
def durationSinceEpoch (t : SystemTime) : Option ℕ :=
  if 0 ≤ t.unixNanos then some t.unixNanos.toNat else none

/-- The expiry in seconds since the epoch, with the `expect` of the conversion. -/
def passwordExpiryUnixSecsChecked (r : Response) : Option ℕ :=
  (durationSinceEpoch r.passwordExpiryUtc).map (· / 1000000000)

/-- **Write a response into a buffer**, one write after the other. -/
def encodeInto (r : Response) (out : Bytes) (clientSupportsAuthtype : Bool) : Option Bytes :=
  r.passwordExpiryUnixSecsChecked.map fun expirySecs =>
    let out := if clientSupportsAuthtype then out ++ ascii "capability[]=authtype\n" else out
    let out := out ++ ascii "username="
    let out := out ++ r.username
    let out := out ++ [lf]
    let out := out ++ ascii "password="
    let out := out ++ r.password
    let out := out ++ [lf]
    let out := if clientSupportsAuthtype then out ++ ascii "ephemeral=true\n" else out
    out ++ (ascii "password_expiry_utc=" ++ ascii (toString expirySecs) ++ [lf, lf])

variable {r r' : Response} {flag flag' : Bool}

/-- The conversion is made of instants that the constructor has let pass. -/
theorem passwordExpiryUnixSecsChecked_eq (r : Response) :
    r.passwordExpiryUnixSecsChecked = some r.passwordExpiryUnixSecs := by
  rw [passwordExpiryUnixSecsChecked, durationSinceEpoch, if_pos r.expiry_ok]
  rfl

/-- What is in the buffer stays, and the block is appended. -/
theorem encodeInto_eq (r : Response) (out : Bytes) (flag : Bool) :
    r.encodeInto out flag = some (out ++ r.encode flag) := by
  rw [encodeInto, passwordExpiryUnixSecsChecked_eq, Option.map_some, encode]
  cases flag <;> simp

/-- An attribute of a response: a key of the protocol, and a value that was checked. -/
def attr (key value : Bytes) (hkey : (key.any fun b => isResponseControl b || b == 0x3D) = false)
    (hne : key ≠ []) (hvalue : value.any isResponseControl = false) : Attribute where
  key := key
  value := value
  key_ne := hne
  eq_notMem h := by simpa using List.any_eq_false.mp hkey _ h
  clean b hb := by
    have hcontrol : isResponseControl b = false := by
      rcases List.mem_append.mp hb with hb | hb
      · have := List.any_eq_false.mp hkey b hb
        simp_all
      · rcases List.mem_cons.mp hb with rfl | hb
        · rfl
        · simpa using List.any_eq_false.mp hvalue b hb
    simpa [isResponseControl, and_assoc] using hcontrol

theorem any_digits_eq_false (n : ℕ) : (ascii (toString n)).any isResponseControl = false := by
  rw [List.any_eq_false]
  intro b hb
  obtain ⟨hge, -⟩ := mem_ascii_toString hb
  simp only [isResponseControl, Bool.or_eq_true, beq_iff_eq, not_or]
  refine ⟨⟨?_, ?_⟩, ?_⟩ <;> rintro rfl <;> exact absurd hge (by decide)

/-- **The attributes that a response stands for.** -/
def attributes (r : Response) (clientSupportsAuthtype : Bool) : List Attribute :=
  (if clientSupportsAuthtype then
    [attr (ascii "capability[]") (ascii "authtype") (by decide) (by decide) (by decide)]
    else []) ++
  [attr (ascii "username") r.username (by decide) (by decide) r.username_ok,
    attr (ascii "password") r.password (by decide) (by decide) r.password_ok] ++
  (if clientSupportsAuthtype then
    [attr (ascii "ephemeral") (ascii "true") (by decide) (by decide) (by decide)]
    else []) ++
  [attr (ascii "password_expiry_utc") (ascii (toString r.passwordExpiryUnixSecs))
    (by decide) (by decide) (any_digits_eq_false _)]

/-- The block is these attributes and an empty line. -/
theorem encode_eq_render (r : Response) (flag : Bool) :
    r.encode flag = render (r.attributes flag) ++ [lf] := by
  have hcap : ascii "capability[]=authtype\n" =
      ascii "capability[]" ++ 0x3D :: ascii "authtype" ++ [lf] := by decide
  have huser : ascii "username=" = ascii "username" ++ [0x3D] := by decide
  have hpass : ascii "password=" = ascii "password" ++ [0x3D] := by decide
  have heph : ascii "ephemeral=true\n" = ascii "ephemeral" ++ 0x3D :: ascii "true" ++ [lf] := by
    decide
  have hexp : ascii "password_expiry_utc=" = ascii "password_expiry_utc" ++ [0x3D] := by decide
  rw [encode, attributes, hcap, huser, hpass, heph, hexp]
  cases flag <;> simp [render, Attribute.line, attr]

/-- The keys and the values of a response, in order. -/
def pairs (username password : Bytes) (expirySecs : ℕ) (clientSupportsAuthtype : Bool) :
    List (Bytes × Bytes) :=
  (if clientSupportsAuthtype then [(ascii "capability[]", ascii "authtype")] else []) ++
    [(ascii "username", username), (ascii "password", password)] ++
    (if clientSupportsAuthtype then [(ascii "ephemeral", ascii "true")] else []) ++
    [(ascii "password_expiry_utc", ascii (toString expirySecs))]

theorem readBlock_encode (r : Response) (flag : Bool) :
    readBlock (r.encode flag) =
      some (pairs r.username r.password r.passwordExpiryUnixSecs flag, []) := by
  rw [encode_eq_render, readBlock_render, attributes, pairs]
  cases flag <;> rfl

/-- The pairs tell the flag by their number, and then the values by their places. -/
theorem pairs_inj {u p u' p' : Bytes} {n n' : ℕ} (h : pairs u p n flag = pairs u' p' n' flag') :
    u = u' ∧ p = p' ∧ n = n' ∧ flag = flag' := by
  have hlen := congrArg List.length h
  have hflag : flag = flag' := by
    cases flag <;> cases flag' <;> simp [pairs] at hlen ⊢
  subst hflag
  cases flag <;> simp only [pairs, if_true, if_false, Bool.false_eq_true, List.nil_append,
    List.cons_append, List.cons.injEq, Prod.mk.injEq, true_and, and_true] at h
  all_goals
    obtain ⟨rfl, rfl, hn⟩ := h
    exact ⟨rfl, rfl, ascii_toString_inj hn, rfl⟩

theorem encode_injective (h : r.encode flag = r'.encode flag') :
    r.username = r'.username ∧ r.password = r'.password ∧
      r.passwordExpiryUnixSecs = r'.passwordExpiryUnixSecs ∧ flag = flag' := by
  have hread := readBlock_encode r flag
  rw [h, readBlock_encode, Option.some.injEq, Prod.mk.injEq] at hread
  obtain ⟨hu, hp, hn, hflag⟩ := pairs_inj hread.1
  exact ⟨hu.symm, hp.symm, hn.symm, hflag.symm⟩

/-- **What the constructor refuses.** -/
theorem exists_new_eq_error_iff {username password : Bytes} {expiry : SystemTime} :
    (∃ e, new username password expiry = .error e) ↔
      (∃ b ∈ username ++ password, b = cr ∨ b = lf ∨ b = 0x00) ∨ expiry.unixNanos < 0 := by
  have hany : ∀ bs : Bytes, bs.any isResponseControl = true ↔
      ∃ b ∈ bs, b = cr ∨ b = lf ∨ b = 0x00 := by
    intro bs
    rw [List.any_eq_true]
    refine exists_congr fun b => and_congr_right fun _ => ?_
    simp only [isResponseControl, Bool.or_eq_true, beq_iff_eq]
    tauto
  simp only [List.mem_append, or_and_right, exists_or, ← hany]
  unfold new
  split
  · rename_i hu
    simp [hu]
  · rename_i hu
    split
    · rename_i hp
      simp [hp]
    · rename_i hp
      split
      · rename_i ht
        simp [ht]
      · rename_i ht
        simp [hu, hp, ht]

/-- **Nothing can be injected into a response.** The constructor refuses exactly the values
with a control byte, and instants before the epoch. Of every other response, the expiry can
be converted; writing it leaves the buffer as it was and appends a block that git reads as
the attributes meant, with nothing after the empty line; and the block tells the user name,
the password, the expiry in seconds and the flag. -/
theorem encode_exact (username password : Bytes) (expiry : SystemTime) :
    ((∃ e, new username password expiry = .error e) ↔
      (∃ b ∈ username ++ password, b = cr ∨ b = lf ∨ b = 0x00) ∨ expiry.unixNanos < 0) ∧
    ∀ r, new username password expiry = .ok r →
      r.passwordExpiryUnixSecsChecked = some (expiry.unixNanos.toNat / 1000000000) ∧
      (∀ out flag, ∃ block, r.encodeInto out flag = some (out ++ block) ∧
        readBlock block =
          some (pairs username password (expiry.unixNanos.toNat / 1000000000) flag, [])) ∧
      ∀ (r' : Response) (out : Bytes) (flag flag' : Bool),
        r.encodeInto out flag = r'.encodeInto out flag' →
        r'.username = username ∧ r'.password = password ∧
          r'.passwordExpiryUnixSecs = expiry.unixNanos.toNat / 1000000000 ∧ flag' = flag := by
  refine ⟨exists_new_eq_error_iff, fun r hr => ?_⟩
  obtain ⟨rfl, rfl, rfl⟩ := new_eq_ok_iff.mp hr
  refine ⟨passwordExpiryUnixSecsChecked_eq r, fun out flag => ?_, fun r' out flag flag' h => ?_⟩
  · exact ⟨r.encode flag, encodeInto_eq r out flag, readBlock_encode r flag⟩
  · rw [encodeInto_eq, encodeInto_eq, Option.some.injEq, List.append_cancel_left_eq] at h
    exact encode_injective h.symm

/-- A password that looks like attributes, and an expiry of 1.7 seconds. -/
theorem encode_exact_lookalike :
    let password := ascii "x=1 password_expiry_utc=9"
    ∃ r, new (ascii "u") password ⟨1700000000⟩ = .ok r ∧
      ∃ block, r.encodeInto [0x21] true = some (0x21 :: block) ∧
        readBlock block = some ([(ascii "capability[]", ascii "authtype"),
          (ascii "username", ascii "u"), (ascii "password", password),
          (ascii "ephemeral", ascii "true"), (ascii "password_expiry_utc", ascii "1")], []) := by
  intro password
  obtain ⟨r, hr⟩ : ∃ r, new (ascii "u") password ⟨1700000000⟩ = .ok r := ⟨_, rfl⟩
  exact ⟨r, hr, ((encode_exact _ _ _).2 r hr).2.1 [0x21] true⟩

end Response

end Symbolon
