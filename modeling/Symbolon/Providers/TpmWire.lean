import Symbolon.Lib.Cursor

/-!
# The responses of the TPM

`src/providers/tpm_backend/wire.rs`: the two responses of the TPM that the signing backend
reads by hand, the signature of `TPM2_Sign` and the public area of `TPM2_ReadPublic`. The
header of a response is read by the crate `tpm2-protocol`, which enters by its entry points
(`Symbolon.Tpm.Tpm2Protocol`).

`verify_rsa2048_signing_key` runs once at startup and decides whether the key at the
configured handle will do for `TPM2_Sign` with RSASSA, SHA-256 and a null ticket. It walks
the public area field by field. Over that walk stands the structure that the bytes encode
(`Symbolon.Tpm.TpmtPublic`), with the unions laid out by the values that select them, and
**what the walk accepts is told in terms of the key** (`Symbolon.Tpm.verify_usable_iff`):
it takes the type, the symmetric algorithm and the key size, passes over the attributes
without a look, and takes every scheme to be followed by a hash.
-/

namespace Symbolon.Tpm

open Text BigEndian

/-! ### Reading a response -/

/-- `TPM_ALG_RSA`. -/
def algRsa : UInt16 := 0x0001

/-- `TPM_ALG_NULL`. -/
def algNull : UInt16 := 0x0010

/-- `TPM_ALG_RSASSA`. -/
def algRsassa : UInt16 := 0x0014

/-- A digit of the format `04x`. -/
def hexDigit (n : ℕ) : Char := Char.ofNat (if n < 10 then 0x30 + n else 0x57 + n)

/-- A 16-bit number as the source formats it, in four digits. -/
def hex4 (n : UInt16) : String :=
  .ofList [hexDigit (n.toNat / 4096), hexDigit (n.toNat / 256 % 16), hexDigit (n.toNat / 16 % 16),
    hexDigit (n.toNat % 16)]

/-- **The header of a response**, as `tpm2-protocol` reads it. -/
structure Tpm2Protocol where
  /-- `TpmResponse`. -/
  Response : Type
  /-- `TpmRc`. -/
  Rc : Type
  /-- `TpmResponse::cast`; an error is its debug text. -/
  cast : Bytes → Except String Response
  /-- `TpmResponse::rc`. -/
  rc : Response → Except String Rc
  /-- The return code is `Fmt0(Success)`. -/
  isSuccess : Rc → Bool
  /-- The debug text of a return code. -/
  debug : Rc → String

/-- The tag of a response without sessions. -/
def tagNoSessions : UInt16 := 0x8001

/-- The tag of a response with sessions. -/
def tagSessions : UInt16 := 0x8002

/-- A 16-bit number on the wire. -/
def be16 (n : UInt16) : Bytes := toBytes 2 n.toNat

/-- A 32-bit number on the wire. -/
def be32 (n : UInt32) : Bytes := toBytes 4 n.toNat

/-- **A response**: the header – tag, size of the whole, return code – and what follows it. -/
def response (tag : UInt16) (rc : UInt32) (body : Bytes) : Bytes :=
  be16 tag ++ toBytes 4 (10 + body.length) ++ be32 rc ++ body

/-- The header is read by the specification: the return code of a whole response that says
so is success. -/
def Tpm2Protocol.Lawful (P : Tpm2Protocol) : Prop :=
  ∀ tag body, tag = tagNoSessions ∨ tag = tagSessions → 10 + body.length < 2 ^ 32 →
    ∃ r rc, P.cast (response tag 0 body) = .ok r ∧ P.rc r = .ok rc ∧ P.isSuccess rc = true

/-- `response_ok`. -/
def responseOk (P : Tpm2Protocol) (resp : Bytes) : Except String Unit :=
  match P.cast resp with
  | .error e => .error ("bad response: " ++ e)
  | .ok r =>
    match P.rc r with
    | .error e => .error ("bad rc: " ++ e)
    | .ok rc => if P.isSuccess rc then .ok () else .error ("TPM returned " ++ P.debug rc)

/-- `resp.get(10..)`. -/
def bodyOf (resp : Bytes) : Except String Bytes :=
  if 10 ≤ resp.length then .ok (resp.drop 10) else .error "no body"

/-- `Cursor::u16`. -/
def u16 (c : Cursor) : Except String (UInt16 × Cursor) :=
  match c.take 2 with
  | none => .error "truncated u16"
  | some (s, c) => .ok (UInt16.ofNat (ofBytes s), c)

/-- `Cursor::u32`. -/
def u32 (c : Cursor) : Except String (UInt32 × Cursor) :=
  match c.take 4 with
  | none => .error "truncated u32"
  | some (s, c) => .ok (UInt32.ofNat (ofBytes s), c)

/-- `Cursor::tpm2b`: a size and that many bytes. -/
def tpm2b (c : Cursor) : Except String (Bytes × Cursor) := do
  let (n, c) ← u16 c
  match c.take n.toNat with
  | none => .error "truncated TPM2B"
  | some (s, c) => .ok (s, c)

/-- `parse_sign`: the signature in the response of `TPM2_Sign`. -/
def parseSign (P : Tpm2Protocol) (resp : Bytes) : Except String Bytes := do
  responseOk P resp
  let body ← bodyOf resp
  let (_paramSize, c) ← u32 (.new body)
  let (sigAlg, c) ← u16 c
  if sigAlg ≠ algRsassa then .error ("unexpected signature alg 0x" ++ hex4 sigAlg)
  else do
    let (_hashAlg, c) ← u16 c
    let (sig, _) ← tpm2b c
    .ok sig

/-- The walk of `verify_rsa2048_signing_key` over a public area, from its scheme on. -/
def verifyScheme (c : Cursor) : Except String Unit := do
  let (scheme, c) ← u16 c
  -- unless the scheme is null, a hash is taken to follow
  let c ← if scheme ≠ algNull then (u16 c).map Prod.snd else .ok c
  let (keyBits, _) ← u16 c
  if keyBits ≠ 2048 then
    .error ("key is RSA-" ++ toString keyBits.toNat ++ ", expected RSA-2048")
  else .ok ()

/-- The walk of `verify_rsa2048_signing_key` over a public area. -/
def verifyPublic (pub : Bytes) : Except String Unit := do
  let (objType, c) ← u16 (.new pub)
  if objType ≠ algRsa then .error ("key is not RSA (type 0x" ++ hex4 objType ++ ")")
  else do
    let (_nameAlg, c) ← u16 c
    let (_attrs, c) ← u32 c
    let (_authPolicy, c) ← tpm2b c
    let (symAlg, c) ← u16 c
    if symAlg ≠ algNull then
      .error ("key symmetric alg 0x" ++ hex4 symAlg ++
        " != NULL (not an unrestricted signing key)")
    else verifyScheme c

/-- **`verify_rsa2048_signing_key`**: the check of the response of `TPM2_ReadPublic`. -/
def verifyRsa2048SigningKey (P : Tpm2Protocol) (resp : Bytes) : Except String Unit := do
  responseOk P resp
  let body ← bodyOf resp
  let (pub, _) ← tpm2b (.new body)
  verifyPublic pub

/-! ### What the bytes encode -/

/-- **A sized buffer**, `TPM2B`. -/
structure Tpm2b where
  /-- The contents. -/
  bytes : Bytes
  /-- Their length has 16 bits. -/
  fits : bytes.length < 2 ^ 16

/-- A sized buffer on the wire. -/
def Tpm2b.encode (s : Tpm2b) : Bytes := toBytes 2 s.bytes.length ++ s.bytes

/-- `TPMT_SYM_DEF_OBJECT`: details follow an algorithm that is not null. -/
inductive Symmetric
  /-- No symmetric algorithm. -/
  | null
  /-- An algorithm with its key size and mode. -/
  | cipher (alg keyBits mode : UInt16) (ne : alg ≠ algNull)

/-- `TPMT_RSA_SCHEME`, with the details that each scheme carries. -/
inductive RsaScheme
  /-- Any scheme may be chosen by the command. -/
  | null
  /-- PKCS #1 v1.5 signatures. -/
  | rsassa (hash : UInt16)
  /-- PKCS #1 v1.5 encryption; it carries no hash. -/
  | rsaes
  /-- PSS signatures. -/
  | rsapss (hash : UInt16)
  /-- OAEP encryption. -/
  | oaep (hash : UInt16)
  deriving DecidableEq

/-- The type of an object with the parameters and the unique part that go with it. What
follows another type than RSA is any bytes. -/
inductive Parms
  /-- `TPMS_RSA_PARMS` and the modulus. -/
  | rsa (symmetric : Symmetric) (scheme : RsaScheme) (keyBits : UInt16) (exponent : UInt32)
      (modulus : Tpm2b)
  /-- Another type. -/
  | other (objType : UInt16) (ne : objType ≠ algRsa) (rest : Bytes)

/-- **The public area of an object**, `TPMT_PUBLIC`. -/
structure TpmtPublic where
  /-- The hash of its name. -/
  nameAlg : UInt16
  /-- `TPMA_OBJECT`. -/
  attributes : UInt32
  /-- The policy. -/
  authPolicy : Tpm2b
  /-- The type and what goes with it. -/
  parms : Parms

/-- A symmetric definition on the wire. -/
def Symmetric.encode : Symmetric → Bytes
  | .null => be16 algNull
  | .cipher alg keyBits mode _ => be16 alg ++ (be16 keyBits ++ be16 mode)

/-- A scheme on the wire. -/
def RsaScheme.encode : RsaScheme → Bytes
  | .null => be16 algNull
  | .rsassa hash => be16 algRsassa ++ be16 hash
  | .rsaes => be16 0x0015
  | .rsapss hash => be16 0x0016 ++ be16 hash
  | .oaep hash => be16 0x0017 ++ be16 hash

/-- The type of an object. -/
def Parms.objType : Parms → UInt16
  | .rsa .. => algRsa
  | .other objType .. => objType

/-- The parameters and the unique part on the wire. -/
def Parms.encode : Parms → Bytes
  | .rsa symmetric scheme keyBits exponent modulus =>
    symmetric.encode ++ (scheme.encode ++ (be16 keyBits ++ (be32 exponent ++ modulus.encode)))
  | .other _ _ rest => rest

namespace TpmtPublic

/-- A public area on the wire. -/
def encode (p : TpmtPublic) : Bytes :=
  be16 p.parms.objType ++ (be16 p.nameAlg ++ (be32 p.attributes ++
    (p.authPolicy.encode ++ p.parms.encode)))

/-- The attribute `sign`, bit 18 of `TPMA_OBJECT`. -/
def sign (p : TpmtPublic) : Bool := p.attributes.toNat.testBit 18

/-- The attribute `restricted`, bit 16 of `TPMA_OBJECT`. -/
def restricted (p : TpmtPublic) : Bool := p.attributes.toNat.testBit 16

/-- The attributes and the scheme of a key that `TPM2_Sign` takes for RSASSA over a digest
that the TPM did not compute. -/
def CanSign (p : TpmtPublic) : Prop :=
  p.sign = true ∧ p.restricted = false ∧
    ∃ symmetric scheme keyBits exponent modulus,
      p.parms = .rsa symmetric scheme keyBits exponent modulus ∧
        (scheme = .null ∨ ∃ hash, scheme = .rsassa hash)

/-- **A usable key**: RSA-2048, no symmetric algorithm, a scheme that RSASSA goes with, and
the attributes to sign what comes from outside. -/
def Usable (p : TpmtPublic) : Prop :=
  p.sign = true ∧ p.restricted = false ∧
    ∃ scheme exponent modulus, p.parms = .rsa .null scheme 2048 exponent modulus ∧
      (scheme = .null ∨ ∃ hash, scheme = .rsassa hash)

/-- What the walk takes for the key size: behind a scheme without a hash, it is the upper
half of the exponent. -/
def bitsRead (scheme : RsaScheme) (keyBits : UInt16) (exponent : UInt32) : UInt16 :=
  match scheme with
  | .rsaes => UInt16.ofNat (exponent.toNat / 65536)
  | _ => keyBits

/-- **What the walk accepts.** -/
def Accepted (p : TpmtPublic) : Prop :=
  ∃ scheme keyBits exponent modulus, p.parms = .rsa .null scheme keyBits exponent modulus ∧
    bitsRead scheme keyBits exponent = 2048

end TpmtPublic

/-- **A response of `TPM2_ReadPublic`**: the public area and the two names. -/
structure ReadPublic where
  /-- The public area. -/
  pub : TpmtPublic
  /-- It is sent as a sized buffer. -/
  fits : pub.encode.length < 2 ^ 16
  /-- The name. -/
  name : Tpm2b
  /-- The qualified name. -/
  qualifiedName : Tpm2b

namespace ReadPublic

/-- What follows the header. -/
def body (r : ReadPublic) : Bytes :=
  Tpm2b.encode ⟨r.pub.encode, r.fits⟩ ++ (r.name.encode ++ r.qualifiedName.encode)

/-- The response. -/
def encode (r : ReadPublic) : Bytes := response tagNoSessions 0 r.body

end ReadPublic

/-! ### Reading encodings -/

section Read

variable {c : Cursor} {rest : Bytes}

theorem u16_before {n : UInt16} (h : c.Before (be16 n ++ rest)) :
    ∃ c', u16 c = .ok (n, c') ∧ c'.Before rest := by
  obtain ⟨c', htake, hrest⟩ := Cursor.take_before h
  rw [be16, length_toBytes] at htake
  have hlt : n.toNat < 256 ^ 2 := n.toNat_lt
  refine ⟨c', ?_, hrest⟩
  rw [u16, htake]
  simp only [ofBytes_toBytes hlt, UInt16.ofNat_toNat]

theorem u32_before {n : UInt32} (h : c.Before (be32 n ++ rest)) :
    ∃ c', u32 c = .ok (n, c') ∧ c'.Before rest := by
  obtain ⟨c', htake, hrest⟩ := Cursor.take_before h
  rw [be32, length_toBytes] at htake
  have hlt : n.toNat < 256 ^ 4 := n.toNat_lt
  refine ⟨c', ?_, hrest⟩
  rw [u32, htake]
  simp only [ofBytes_toBytes hlt, UInt32.ofNat_toNat]

theorem tpm2b_before {s : Tpm2b} (h : c.Before (s.encode ++ rest)) :
    ∃ c', tpm2b c = .ok (s.bytes, c') ∧ c'.Before rest := by
  have hsize : (UInt16.ofNat s.bytes.length).toNat = s.bytes.length :=
    UInt16.toNat_ofNat_of_lt' s.fits
  have hlen : s.encode = be16 (UInt16.ofNat s.bytes.length) ++ s.bytes := by
    rw [be16, hsize, Tpm2b.encode]
  rw [hlen, List.append_assoc] at h
  obtain ⟨c₁, hu16, h₁⟩ := u16_before h
  obtain ⟨c₂, htake, h₂⟩ := Cursor.take_before h₁
  refine ⟨c₂, ?_, h₂⟩
  simp only [tpm2b, hu16, bind, Except.bind, hsize, htake]

end Read

/-- The upper half of a 32-bit number is read where a 16-bit number is expected. -/
theorem be32_eq (n : UInt32) :
    ∃ lower, be32 n = be16 (UInt16.ofNat (n.toNat / 65536)) ++ lower := by
  have hlt : n.toNat / 65536 < 2 ^ 16 := Nat.div_lt_of_lt_mul n.toNat_lt
  refine ⟨toBytes 2 n.toNat, ?_⟩
  rw [be16, UInt16.toNat_ofNat_of_lt' hlt]
  simp only [be32, toBytes, List.nil_append, List.append_assoc, Nat.div_div_eq_div_mul,
    Nat.reduceMul]

theorem responseOk_of_lawful {P : Tpm2Protocol} (hP : P.Lawful) {tag : UInt16} {body : Bytes}
    (htag : tag = tagNoSessions ∨ tag = tagSessions) (hsize : 10 + body.length < 2 ^ 32) :
    responseOk P (response tag 0 body) = .ok () := by
  obtain ⟨r, rc, hcast, hrc, hok⟩ := hP tag body htag hsize
  simp only [responseOk, hcast, hrc, hok, if_true]

theorem bodyOf_response (tag : UInt16) (rc : UInt32) (body : Bytes) :
    bodyOf (response tag rc body) = .ok body := by
  have hheader : (be16 tag ++ toBytes 4 (10 + body.length) ++ be32 rc).length = 10 := by
    simp [be16, be32]
  have hlen : 10 ≤ (response tag rc body).length := by
    rw [response, List.length_append, hheader]
    exact Nat.le_add_right _ _
  rw [bodyOf, if_pos hlen, response, List.drop_left' hheader]

/-! ### The walk over a public area -/

/-- From the scheme on, the walk looks at the key size, or at what it takes for it. -/
theorem verifyScheme_eq_ok_iff {c : Cursor} {scheme : RsaScheme} {keyBits : UInt16}
    {exponent : UInt32} {rest : Bytes}
    (h : c.Before (scheme.encode ++ (be16 keyBits ++ (be32 exponent ++ rest)))) :
    verifyScheme c = .ok () ↔ TpmtPublic.bitsRead scheme keyBits exponent = 2048 := by
  have hlast : ∀ n : UInt16, (if n ≠ 2048 then
      Except.error ("key is RSA-" ++ toString n.toNat ++ ", expected RSA-2048") else .ok ()) =
        .ok () ↔ n = 2048 := by
    intro n
    by_cases hn : n = 2048 <;> simp [hn]
  -- Behind a scheme with a hash, or behind the null scheme, comes the key size.
  have hash : ∀ alg hash : UInt16, alg ≠ algNull →
      c.Before (be16 alg ++ (be16 hash ++ (be16 keyBits ++ (be32 exponent ++ rest)))) →
      (verifyScheme c = .ok () ↔ keyBits = 2048) := by
    intro alg hash hne h
    obtain ⟨c₁, h₁, hb₁⟩ := u16_before h
    obtain ⟨c₂, h₂, hb₂⟩ := u16_before hb₁
    obtain ⟨c₃, h₃, hb₃⟩ := u16_before hb₂
    rw [← hlast keyBits]
    simp only [verifyScheme, bind, Except.bind, h₁, ne_eq, hne, not_false_eq_true, if_true, h₂,
      Except.map, h₃]
  cases scheme with
  | null =>
    obtain ⟨c₁, h₁, hb₁⟩ := u16_before h
    obtain ⟨c₂, h₂, hb₂⟩ := u16_before hb₁
    change _ ↔ keyBits = 2048
    rw [← hlast keyBits]
    simp only [verifyScheme, bind, Except.bind, h₁, ne_eq, not_true_eq_false, if_false, h₂]
  | rsassa alg => exact hash algRsassa alg (by decide) (by simpa [RsaScheme.encode] using h)
  | rsapss alg => exact hash 0x0016 alg (by decide) (by simpa [RsaScheme.encode] using h)
  | oaep alg => exact hash 0x0017 alg (by decide) (by simpa [RsaScheme.encode] using h)
  | rsaes =>
    -- The key size is taken for the hash, and the exponent for the key size.
    have hne : (0x0015 : UInt16) ≠ algNull := by decide
    obtain ⟨lower, hlower⟩ := be32_eq exponent
    rw [RsaScheme.encode, hlower, List.append_assoc] at h
    obtain ⟨c₁, h₁, hb₁⟩ := u16_before h
    obtain ⟨c₂, h₂, hb₂⟩ := u16_before hb₁
    obtain ⟨c₃, h₃, hb₃⟩ := u16_before hb₂
    rw [TpmtPublic.bitsRead, ← hlast]
    simp only [verifyScheme, bind, Except.bind, h₁, ne_eq, hne, not_false_eq_true, if_true, h₂,
      Except.map, h₃]

/-- **What the walk accepts, in terms of the public area.** -/
theorem verifyPublic_eq_ok_iff (p : TpmtPublic) : verifyPublic p.encode = .ok () ↔ p.Accepted := by
  obtain ⟨nameAlg, attributes, authPolicy, parms⟩ := p
  obtain ⟨c₁, h₁, hb₁⟩ := u16_before (Cursor.before_new (TpmtPublic.encode
    ⟨nameAlg, attributes, authPolicy, parms⟩))
  cases parms with
  | other objType ne rest =>
    have hrefused : ¬verifyPublic (TpmtPublic.encode
        ⟨nameAlg, attributes, authPolicy, .other objType ne rest⟩) = .ok () := by
      simp [verifyPublic, bind, Except.bind, h₁, Parms.objType, ne]
    refine iff_of_false hrefused ?_
    rintro ⟨_, _, _, _, heq, -⟩
    cases heq
  | rsa symmetric scheme keyBits exponent modulus =>
    obtain ⟨c₂, h₂, hb₂⟩ := u16_before hb₁
    obtain ⟨c₃, h₃, hb₃⟩ := u32_before hb₂
    obtain ⟨c₄, h₄, hb₄⟩ := tpm2b_before hb₃
    cases symmetric with
    | cipher alg bits mode ne =>
      rw [Parms.encode, Symmetric.encode, List.append_assoc] at hb₄
      obtain ⟨c₅, h₅, -⟩ := u16_before hb₄
      have hrefused : ¬verifyPublic (TpmtPublic.encode ⟨nameAlg, attributes, authPolicy,
          .rsa (.cipher alg bits mode ne) scheme keyBits exponent modulus⟩) = .ok () := by
        simp [verifyPublic, bind, Except.bind, h₁, h₂, h₃, h₄, h₅, Parms.objType, ne]
      refine iff_of_false hrefused ?_
      rintro ⟨_, _, _, _, heq, -⟩
      cases heq
    | null =>
      obtain ⟨c₅, h₅, hb₅⟩ := u16_before hb₄
      have hwalk : verifyPublic (TpmtPublic.encode ⟨nameAlg, attributes, authPolicy,
          .rsa .null scheme keyBits exponent modulus⟩) = verifyScheme c₅ := by
        simp [verifyPublic, bind, Except.bind, h₁, h₂, h₃, h₄, h₅, Parms.objType]
      rw [hwalk, verifyScheme_eq_ok_iff hb₅]
      constructor
      · intro hbits
        exact ⟨scheme, keyBits, exponent, modulus, rfl, hbits⟩
      · rintro ⟨_, _, _, _, heq, hbits⟩
        cases heq
        exact hbits

/-- **The check of a successful response is the walk over its public area.** -/
theorem verify_encode_eq_ok_iff {P : Tpm2Protocol} (hP : P.Lawful) (r : ReadPublic) :
    verifyRsa2048SigningKey P r.encode = .ok () ↔ r.pub.Accepted := by
  have hsize : 10 + r.body.length < 2 ^ 32 := by
    have h₁ := r.fits
    have h₂ := r.name.fits
    have h₃ := r.qualifiedName.fits
    simp only [ReadPublic.body, Tpm2b.encode, List.length_append, length_toBytes]
    omega
  have hok := responseOk_of_lawful hP (.inl rfl) hsize
  obtain ⟨c, hpub, -⟩ := tpm2b_before (Cursor.before_new r.body)
  rw [← verifyPublic_eq_ok_iff]
  simp only [verifyRsa2048SigningKey, ReadPublic.encode, hok, bodyOf_response, hpub, bind,
    Except.bind]

/-- **The signature of a successful response is found**, whatever the authorisation area
behind it is. -/
theorem parseSign_eq_ok {P : Tpm2Protocol} (hP : P.Lawful) (paramSize : UInt32)
    (hashAlg : UInt16) (sig : Tpm2b) (auth : Bytes)
    (hsize : auth.length < 2 ^ 31) :
    parseSign P (response tagSessions 0 (be32 paramSize ++ (be16 algRsassa ++ (be16 hashAlg ++
      (sig.encode ++ auth))))) = .ok sig.bytes := by
  have hlen : 10 + (be32 paramSize ++ (be16 algRsassa ++ (be16 hashAlg ++
      (sig.encode ++ auth)))).length < 2 ^ 32 := by
    have := sig.fits
    simp only [Tpm2b.encode, be16, be32, List.length_append, length_toBytes]
    omega
  obtain ⟨c₁, h₁, hb₁⟩ := u32_before (Cursor.before_new (be32 paramSize ++ (be16 algRsassa ++
    (be16 hashAlg ++ (sig.encode ++ auth)))))
  obtain ⟨c₂, h₂, hb₂⟩ := u16_before hb₁
  obtain ⟨c₃, h₃, hb₃⟩ := u16_before hb₂
  obtain ⟨c₄, h₄, -⟩ := tpm2b_before hb₃
  simp only [parseSign, responseOk_of_lawful hP (.inr rfl) hlen, bodyOf_response, bind,
    Except.bind, h₁, h₂, h₃, h₄, ne_eq, not_true_eq_false, if_false]

/-! ### Which keys are accepted -/

/-- A usable key is one that is accepted and can sign. -/
theorem TpmtPublic.usable_iff (p : TpmtPublic) : p.Usable ↔ p.Accepted ∧ p.CanSign := by
  constructor
  · rintro ⟨hsign, hfree, scheme, exponent, modulus, hparms, hscheme⟩
    refine ⟨⟨scheme, 2048, exponent, modulus, hparms, ?_⟩,
      hsign, hfree, .null, scheme, 2048, exponent, modulus, hparms, hscheme⟩
    obtain rfl | ⟨hash, rfl⟩ := hscheme <;> rfl
  · rintro ⟨⟨scheme, keyBits, exponent, modulus, hparms, hbits⟩, hsign, hfree, _, _, _, _, _,
      hparms', hscheme⟩
    cases hparms.symm.trans hparms'
    have hsize : keyBits = 2048 := by
      obtain rfl | ⟨hash, rfl⟩ := hscheme <;> exact hbits
    exact ⟨hsign, hfree, scheme, exponent, modulus, hsize ▸ hparms, hscheme⟩

/-- **Which keys pass the check, and when these are the usable ones.** For every successful
response: the key passes iff it is an RSA key without a symmetric algorithm whose size – or
what is read for it – is 2048. Every usable key passes. The check tells whether the key is
usable iff the key, if it passes, is one that can sign: `sign` is set, `restricted` is not,
and the scheme is null or RSASSA. -/
theorem verify_usable_iff {P : Tpm2Protocol} (hP : P.Lawful) (r : ReadPublic) :
    (verifyRsa2048SigningKey P r.encode = .ok () ↔ r.pub.Accepted) ∧
      (r.pub.Usable → verifyRsa2048SigningKey P r.encode = .ok ()) ∧
      ((verifyRsa2048SigningKey P r.encode = .ok () ↔ r.pub.Usable) ↔
        (r.pub.Accepted → r.pub.CanSign)) := by
  have hpass := verify_encode_eq_ok_iff hP r
  refine ⟨hpass, ?_, ?_⟩
  · intro husable
    exact hpass.mpr (r.pub.usable_iff.mp husable).1
  · rw [hpass, TpmtPublic.usable_iff]
    exact ⟨fun h hacc => (h.mp hacc).2, fun h => ⟨fun hacc => ⟨hacc, h hacc⟩, And.left⟩⟩

/-- The header read as the specification says: the size is that of the whole, and the return
code is the number behind it. -/
def plainProtocol : Tpm2Protocol where
  Response := Bytes
  Rc := ℕ
  cast resp := if ofBytes ((resp.drop 2).take 4) = resp.length then .ok resp else .error "Size"
  rc resp := .ok (ofBytes ((resp.drop 6).take 4))
  isSuccess rc := rc == 0
  debug rc := toString rc

theorem plainProtocol_lawful : plainProtocol.Lawful := by
  intro tag body _ hsize
  have htag : (be16 tag).length = 2 := length_toBytes _ _
  have hsizeField : ((response tag 0 body).drop 2).take 4 = toBytes 4 (10 + body.length) := by
    rw [response, List.append_assoc, List.append_assoc, List.drop_left' htag,
      List.take_left' (length_toBytes _ _)]
  have hlen : (response tag 0 body).length = 10 + body.length := by
    simp only [response, be16, be32, List.length_append, length_toBytes]
  have hrcField : ((response tag 0 body).drop 6).take 4 = toBytes 4 0 := by
    have hfront : (be16 tag ++ toBytes 4 (10 + body.length)).length = 6 := by simp [htag]
    rw [response, be32, List.append_assoc _ (toBytes 4 _), List.drop_left' hfront,
      List.take_left' (length_toBytes _ _)]
    rfl
  refine ⟨response tag 0 body, (0 : ℕ), if_pos ?_, ?_, rfl⟩
  · rw [hsizeField, ofBytes_toBytes hsize, hlen]
  · exact congrArg Except.ok (congrArg ofBytes hrcField)

/-- A modulus of 256 bytes. -/
def plainModulus : Tpm2b := ⟨List.replicate 256 0x9A, List.length_replicate.trans_lt (by decide)⟩

/-- A key of 2048 bits with these attributes and this scheme, and empty names. -/
def plainKeyPublic (attributes : UInt32) (scheme : RsaScheme) : ReadPublic where
  pub := ⟨0x000B, attributes, ⟨[], by decide⟩, .rsa .null scheme 2048 0 plainModulus⟩
  fits := by
    have hscheme : scheme.encode.length ≤ 4 := by
      cases scheme <;> simp [RsaScheme.encode, be16]
    simp only [TpmtPublic.encode, Parms.encode, Symmetric.encode, Tpm2b.encode, be16, be32,
      List.length_append, length_toBytes, plainModulus, List.length_replicate, List.length_nil]
    omega
  name := ⟨[], by decide⟩
  qualifiedName := ⟨[], by decide⟩

/-- The key that the documentation tells to import: it signs and is not restricted. -/
theorem verify_usable_iff_imported :
    verifyRsa2048SigningKey plainProtocol (plainKeyPublic 0x00040072 .null).encode = .ok () := by
  refine (verify_usable_iff plainProtocol_lawful _).2.1 ?_
  exact ⟨by decide, by decide, .null, 0, _, rfl, .inl rfl⟩

/-- **Three keys that pass and cannot be used**: one without the attribute `sign`, one that
is `restricted`, and one bound to PSS signatures. -/
theorem verify_accepts_unusable :
    plainProtocol.Lawful ∧
      (¬(plainKeyPublic 0x00020072 .null).pub.Usable ∧
        verifyRsa2048SigningKey plainProtocol (plainKeyPublic 0x00020072 .null).encode = .ok ()) ∧
      (¬(plainKeyPublic 0x00050072 (.rsassa 0x000B)).pub.Usable ∧
        verifyRsa2048SigningKey plainProtocol
          (plainKeyPublic 0x00050072 (.rsassa 0x000B)).encode = .ok ()) ∧
      (¬(plainKeyPublic 0x00040072 (.rsapss 0x000B)).pub.Usable ∧
        verifyRsa2048SigningKey plainProtocol
          (plainKeyPublic 0x00040072 (.rsapss 0x000B)).encode = .ok ()) := by
  have hpass : ∀ attributes scheme, (scheme = .rsaes → False) →
      verifyRsa2048SigningKey plainProtocol (plainKeyPublic attributes scheme).encode = .ok () := by
    intro attributes scheme hne
    refine (verify_encode_eq_ok_iff plainProtocol_lawful _).mpr
      ⟨scheme, 2048, 0, plainModulus, rfl, ?_⟩
    rw [TpmtPublic.bitsRead]
    exact hne
  refine ⟨plainProtocol_lawful, ⟨?_, hpass _ _ nofun⟩, ⟨?_, hpass _ _ nofun⟩,
    ⟨?_, hpass _ _ nofun⟩⟩
  · rintro ⟨hsign, -⟩
    exact absurd hsign (by decide)
  · rintro ⟨-, hfree, -⟩
    exact absurd hfree (by decide)
  · rintro ⟨-, -, scheme, exponent, modulus, hparms, hscheme⟩
    cases hparms
    obtain h | ⟨hash, h⟩ := hscheme <;> cases h

end Symbolon.Tpm
