/-
The payload codec (`stores/payload_codec`).

A record is encrypted with the address of its store and its key as associated data, so
that its ciphertext does not open in another place. The two are joined by a unit
separator, which either of them may contain. The cipher is the parameter `Aead`: an
ideal one, which opens what it has sealed under the same key, nonce and associated data
and under no other.

  * `decode_encode_iff` — in which places a stored record decodes.
  * `associatedData_eq_iff` — which places have the same associated data.
  * `relocation_rejected_iff` — no record decodes elsewhere, unless a separator shifts.
-/
import GuardianDb.Stores.Docs

namespace GuardianDb.Stores

open List

/-! ### The cipher -/

abbrev CipherKey := { bytes : Bytes // bytes.length = 32 }

abbrev XNonce := { bytes : Bytes // bytes.length = 24 }

/-- An ideal AEAD cipher (`XChaCha20Poly1305`), by key, nonce, associated data and
message. Sealing may fail for a long message, never for an empty one. -/
structure Aead where
  encrypt : CipherKey → XNonce → Bytes → Bytes → Option Bytes
  decrypt : CipherKey → XNonce → Bytes → Bytes → Option Bytes
  opens : ∀ {k n aad msg c}, encrypt k n aad msg = some c → decrypt k n aad c = some msg
  binds : ∀ {k n aad msg c k' n' aad' msg'}, encrypt k n aad msg = some c →
    decrypt k' n' aad' c = some msg' → k' = k ∧ n' = n ∧ aad' = aad
  /-- A ciphertext has a tag of 16 bytes. -/
  tagged : ∀ {k n aad msg c}, encrypt k n aad msg = some c → msg.length + 16 ≤ c.length
  seals_nil : ∀ k n aad, (encrypt k n aad []).isSome

/-! ### Records -/

structure RecordCtx where
  storeAddress : String
  key : String
  deriving DecidableEq, Repr

namespace RecordCtx

def separator : UInt8 := 0x1f

def associatedData (ctx : RecordCtx) : Bytes :=
  utf8 ctx.storeAddress ++ separator :: utf8 ctx.key

/-- A separator inside the address of `a` ends the address of `b`: what comes after it
opens the key of `b`. -/
def Shifted (a b : RecordCtx) : Prop :=
  ∃ middle, a.storeAddress = b.storeAddress ++ "\x1f" ++ middle ∧
    b.key = middle ++ "\x1f" ++ a.key

end RecordCtx

/-- `VERSION_XCHACHA20POLY1305`. -/
def codecVersion : UInt8 := 1

def nonceLen : Nat := 24

/-- `MIN_ENCODED_LEN`: version, nonce and tag. -/
def minEncodedLen : Nat := 1 + nonceLen + 16

/-- `XChaCha20Poly1305Codec`. -/
structure AeadCodec where
  cipher : Aead
  cipherKey : CipherKey

variable {a b : RecordCtx} {nonce : Except String XNonce}

namespace AeadCodec

variable (K : AeadCodec)

/-- `encode`, with what the random generator gives for a nonce. -/
def encode (ctx : RecordCtx) (nonce : Except String XNonce) (plaintext : Bytes) :
    Except StoreError Bytes :=
  match nonce with
  | .error e => .error (.other ("System RNG unavailable: " ++ e))
  | .ok nonce =>
      match K.cipher.encrypt K.cipherKey nonce ctx.associatedData plaintext with
      | none => .error (.other "Payload encryption failed")
      | some ciphertext => .ok (codecVersion :: nonce.val ++ ciphertext)

def decode (ctx : RecordCtx) (stored : Bytes) : Except StoreError Bytes :=
  if stored.length < minEncodedLen then
    .error (.other "Encrypted payload is too short to be well-formed")
  else if stored.headD 0 ≠ codecVersion then
    .error (.other ("Unsupported payload codec version: " ++ toString (stored.headD 0)))
  else if h : ((stored.drop 1).take nonceLen).length = nonceLen then
    match K.cipher.decrypt K.cipherKey ⟨(stored.drop 1).take nonceLen, h⟩ ctx.associatedData
        (stored.drop (1 + nonceLen)) with
    | some plaintext => .ok plaintext
    | none => .error (.other "Payload authentication failed (wrong key or tampered record)")
  else .error (.other "Malformed payload nonce")

/-! ### Where a record decodes -/

theorem encode_ok {ctx : RecordCtx} {plaintext stored : Bytes}
    (h : K.encode ctx nonce plaintext = .ok stored) :
    ∃ n ciphertext, nonce = .ok n ∧
      K.cipher.encrypt K.cipherKey n ctx.associatedData plaintext = some ciphertext ∧
      stored = codecVersion :: n.val ++ ciphertext := by
  unfold encode at h
  cases nonce with
  | error e => cases h
  | ok n => grind

/-- The framing is undone: a stored record is handed to the cipher as it was sealed. -/
theorem decode_frame (ctx : RecordCtx) (n : XNonce) {ciphertext : Bytes}
    (htag : 16 ≤ ciphertext.length) :
    K.decode ctx (codecVersion :: n.val ++ ciphertext) =
      match K.cipher.decrypt K.cipherKey n ctx.associatedData ciphertext with
      | some plaintext => .ok plaintext
      | none => .error (.other "Payload authentication failed (wrong key or tampered record)") := by
  have hlen : n.val.length = nonceLen := n.property
  have hlong : ¬ (codecVersion :: n.val ++ ciphertext).length < minEncodedLen := by
    simp only [minEncodedLen, cons_append, length_cons, length_append, hlen]
    omega
  have htake : ((codecVersion :: n.val ++ ciphertext).drop 1).take nonceLen = n.val := by simp_all
  have hdrop : (codecVersion :: n.val ++ ciphertext).drop (1 + nonceLen) = ciphertext := by grind
  have hhead : ¬ (codecVersion :: n.val ++ ciphertext).headD 0 ≠ codecVersion := fun h => h rfl
  unfold decode
  rw [if_neg hlong, if_neg hhead, dif_pos (by rw [htake, hlen]), hdrop]
  simp only [htake]

/-- **A record decodes where the associated data is the same**, and only there. -/
theorem decode_encode_iff {plaintext stored : Bytes} (h : K.encode a nonce plaintext = .ok stored) :
    (∃ msg, K.decode b stored = .ok msg) ↔ a.associatedData = b.associatedData := by
  obtain ⟨n, ciphertext, -, hseal, rfl⟩ := K.encode_ok h
  have htag : 16 ≤ ciphertext.length :=
    Nat.le_trans (Nat.le_add_left 16 plaintext.length) (K.cipher.tagged hseal)
  rw [K.decode_frame b n htag]
  constructor
  · grind [K.cipher.binds]
  · intro heq
    rw [heq] at hseal
    exact ⟨plaintext, by rw [K.cipher.opens hseal]⟩

/-- A record can be stored in every place. -/
theorem exists_encode_ok (ctx : RecordCtx) :
    ∃ nonce plaintext stored, K.encode ctx nonce plaintext = .ok stored := by
  let n : XNonce := ⟨List.replicate 24 0, length_replicate⟩
  obtain ⟨ciphertext, hseal⟩ := Option.isSome_iff_exists.mp
    (K.cipher.seals_nil K.cipherKey n ctx.associatedData)
  exact ⟨.ok n, [], codecVersion :: n.val ++ ciphertext, by simp only [encode, hseal]⟩

end AeadCodec

/-! ### Associated data -/

/-- The associated data is the text with the separator between the two. -/
theorem associatedData_eq (ctx : RecordCtx) :
    ctx.associatedData = utf8 (ctx.storeAddress ++ "\x1f" ++ ctx.key) := by
  have hsep : utf8 "\x1f" = [RecordCtx.separator] := by decide
  have happend : ∀ s t : String, utf8 (s ++ t) = utf8 s ++ utf8 t := by
    simp [utf8, ByteArray.data_append, Array.toList_append]
  rw [happend, happend, hsep, RecordCtx.associatedData, append_assoc, singleton_append]

theorem utf8_inj {s t : String} : utf8 s = utf8 t ↔ s = t := by
  constructor
  · intro h
    exact String.toByteArray_inj.mp (ByteArray.ext (Array.toList_inj.mp h))
  · rintro rfl
    rfl

/-- Two ways to cut a text at a separator: they are the same, or one is a shift of the
other. -/
theorem separated_eq_iff :
    a.storeAddress ++ "\x1f" ++ a.key = b.storeAddress ++ "\x1f" ++ b.key ↔
      a = b ∨ a.Shifted b ∨ b.Shifted a := by
  obtain ⟨s, k⟩ := a
  obtain ⟨s', k'⟩ := b
  constructor
  · intro h
    have hlists : s.toList ++ '\x1f' :: k.toList = s'.toList ++ '\x1f' :: k'.toList := by
      simpa using congrArg String.toList h
    rcases append_eq_append_iff.mp hlists with ⟨as, hs, hk⟩ | ⟨bs, hs, hk⟩
    · cases as with
      | nil => grind [String.toList_inj.mp]
      | cons c middle =>
        obtain ⟨rfl, hk⟩ := List.cons.inj hk
        refine .inr (.inr ⟨String.ofList middle, ?_, ?_⟩)
        · exact String.toList_inj.mp (by simpa using hs)
        · exact String.toList_inj.mp (by simpa using hk)
    · cases bs with
      | nil => grind [String.toList_inj.mp]
      | cons c middle =>
        obtain ⟨rfl, hk⟩ := List.cons.inj hk
        refine .inr (.inl ⟨String.ofList middle, ?_, ?_⟩)
        · exact String.toList_inj.mp (by simpa using hs)
        · exact String.toList_inj.mp (by simpa using hk)
  · rintro (h | ⟨middle, hs, hk⟩ | ⟨middle, hs, hk⟩)
    · rw [h]
    · grind
    · grind

/-- **Which places have the same associated data.** -/
theorem associatedData_eq_iff :
    a.associatedData = b.associatedData ↔ a = b ∨ a.Shifted b ∨ b.Shifted a := by
  rw [associatedData_eq, associatedData_eq, utf8_inj, separated_eq_iff]

/-- A place is not a shift of itself. -/
theorem not_shifted_self (a : RecordCtx) : ¬ a.Shifted a := by
  rintro ⟨middle, hs, -⟩
  have hlen := congrArg (fun s : String => s.toList.length) hs
  simp at hlen

/-- **No record decodes in another place**, if and only if none of the two places is a
shift of the other. -/
theorem relocation_rejected_iff (K : AeadCodec) (a b : RecordCtx) :
    (∀ nonce plaintext stored msg, K.encode a nonce plaintext = .ok stored →
      K.decode b stored = .ok msg → a.storeAddress = b.storeAddress ∧ a.key = b.key) ↔
      ¬ (a.Shifted b ∨ b.Shifted a) := by
  constructor
  · intro hreject hshift
    obtain ⟨nonce, plaintext, stored, hencode⟩ := K.exists_encode_ok a
    obtain ⟨msg, hdecode⟩ := (K.decode_encode_iff hencode).mpr
      (associatedData_eq_iff.mpr (.inr hshift))
    obtain ⟨hs, hk⟩ := hreject nonce plaintext stored msg hencode hdecode
    have hab : a = b := by
      cases a
      cases b
      simp only at hs hk
      rw [hs, hk]
    subst hab
    exact not_shifted_self a (hshift.elim id id)
  · intro hshift nonce plaintext stored msg hencode hdecode
    rcases associatedData_eq_iff.mp ((K.decode_encode_iff hencode).mp ⟨msg, hdecode⟩) with h | h
    · rw [h]
      exact ⟨rfl, rfl⟩
    · exact absurd h hshift

/-! ### A cipher -/

/-- The bytes in front of a message that say how it was sealed. The length of the
associated data is written in unary. -/
def sealFrame (k : CipherKey) (n : XNonce) (aad : Bytes) : Bytes :=
  List.replicate 16 0 ++ (k.val ++ (n.val ++ (List.replicate aad.length 1 ++ 0 :: aad)))

theorem unary_inj : ∀ {m n : Nat} {xs ys : Bytes},
    List.replicate m (1 : UInt8) ++ 0 :: xs = List.replicate n 1 ++ 0 :: ys → m = n ∧ xs = ys
  | 0, 0, _, _, h => ⟨rfl, (List.cons.inj h).2⟩
  | 0, n + 1, _, _, h => by simp [replicate_succ] at h
  | m + 1, 0, _, _, h => by simp [replicate_succ] at h
  | m + 1, n + 1, _, _, h => by
      obtain ⟨rfl, hxs⟩ := unary_inj (List.cons.inj h).2
      exact ⟨rfl, hxs⟩

theorem sealFrame_inj {k k' : CipherKey} {n n' : XNonce} {aad aad' msg msg' : Bytes}
    (h : sealFrame k n aad ++ msg = sealFrame k' n' aad' ++ msg') :
    k = k' ∧ n = n' ∧ aad = aad' := by
  simp only [sealFrame, append_assoc] at h
  have h₁ := append_cancel_left h
  obtain ⟨hk, h₂⟩ := append_inj h₁ (k.property.trans k'.property.symm)
  obtain ⟨hn, h₃⟩ := append_inj h₂ (n.property.trans n'.property.symm)
  obtain ⟨hlen, h₄⟩ := unary_inj h₃
  exact ⟨Subtype.ext hk, Subtype.ext hn, (append_inj h₄ hlen).1⟩

/-- An ideal cipher: it writes down how the message was sealed. -/
def openCipher : Aead where
  encrypt k n aad msg := some (sealFrame k n aad ++ msg)
  decrypt k n aad c :=
    if sealFrame k n aad <+: c then some (c.drop (sealFrame k n aad).length) else none
  opens := by
    rintro k n aad msg c h
    obtain rfl := Option.some.inj h
    rw [if_pos (List.prefix_append _ _), List.drop_left]
  binds := by
    rintro k n aad msg c k' n' aad' msg' h hopen
    obtain rfl := Option.some.inj h
    split at hopen
    · next hprefix =>
        obtain ⟨rest, hrest⟩ := hprefix
        exact sealFrame_inj hrest
    · cases hopen
  tagged := by
    rintro k n aad msg c h
    obtain rfl := Option.some.inj h
    simp only [sealFrame, List.length_append, List.length_replicate]
    omega
  seals_nil k n aad := rfl

def openCodec : AeadCodec := ⟨openCipher, ⟨List.replicate 32 7, by decide⟩⟩

/-- A record of the key `c` in the store `a␟b` decodes as the record of the key `b␟c` in
the store `a`. -/
theorem record_relocated :
    openCodec.encode ⟨"a\x1fb", "c"⟩ (.ok ⟨List.replicate 24 0, by decide⟩) [42] =
        .ok (codecVersion :: List.replicate 24 0 ++ (sealFrame openCodec.cipherKey
          ⟨List.replicate 24 0, by decide⟩ (RecordCtx.mk "a\x1fb" "c").associatedData ++ [42])) ∧
      openCodec.decode ⟨"a", "b\x1fc"⟩ (codecVersion :: List.replicate 24 0 ++
        (sealFrame openCodec.cipherKey ⟨List.replicate 24 0, by decide⟩
          (RecordCtx.mk "a\x1fb" "c").associatedData ++ [42])) = .ok [42] ∧
      (RecordCtx.mk "a\x1fb" "c").storeAddress ≠ (RecordCtx.mk "a" "b\x1fc").storeAddress := by
  refine ⟨rfl, ?_, by decide⟩
  decide +kernel

end GuardianDb.Stores
