import ViperDos.Tls

/-!
ChaCha20-Poly1305 as user/libtls/src/crypto.cpp has it. The two routines agree on the tag and on
the key stream, so what one of them makes is what the other one opens.
-/

namespace ViperDos.Tls

def byteAt (bytes : Bytes) (i : Nat) : UInt32 := (bytes.getD i 0).toUInt32

def load32 (bytes : Bytes) (i : Nat) : UInt32 :=
  byteAt bytes i ||| byteAt bytes (i + 1) <<< 8 ||| byteAt bytes (i + 2) <<< 16 |||
    byteAt bytes (i + 3) <<< 24

def store32 (word : UInt32) : Bytes :=
  [word.toUInt8, (word >>> 8).toUInt8, (word >>> 16).toUInt8, (word >>> 24).toUInt8]

abbrev ChachaState := Vector UInt32 16

def rotl32 (x n : UInt32) : UInt32 := x <<< n ||| x >>> (32 - n)

def quarterRound (a b c d : Fin 16) (x : ChachaState) : ChachaState :=
  let x := x.set a (x[a] + x[b])
  let x := x.set d (rotl32 (x[d] ^^^ x[a]) 16)
  let x := x.set c (x[c] + x[d])
  let x := x.set b (rotl32 (x[b] ^^^ x[c]) 12)
  let x := x.set a (x[a] + x[b])
  let x := x.set d (rotl32 (x[d] ^^^ x[a]) 8)
  let x := x.set c (x[c] + x[d])
  x.set b (rotl32 (x[b] ^^^ x[c]) 7)

def doubleRound (x : ChachaState) : ChachaState :=
  let x := quarterRound 3 7 11 15 (quarterRound 2 6 10 14 (quarterRound 1 5 9 13
    (quarterRound 0 4 8 12 x)))
  quarterRound 3 4 9 14 (quarterRound 2 7 8 13 (quarterRound 1 6 11 12 (quarterRound 0 5 10 15 x)))

def chacha20Block (state : ChachaState) : Bytes :=
  (Vector.zipWith (· + ·) (Nat.repeat doubleRound 10 state) state).toList.flatMap store32

def chacha20Init (key : Vector UInt8 32) (nonce : Vector UInt8 12) (counter : UInt32) :
    ChachaState :=
  let key := load32 key.toList
  let nonce := load32 nonce.toList
  #v[0x61707865, 0x3320646e, 0x79622d32, 0x6b206574, key 0, key 4, key 8, key 12, key 16, key 20,
    key 24, key 28, counter, nonce 0, nonce 4, nonce 8]

def cryptLoop : Nat → ChachaState → Bytes → Bytes
  | 0, _, _ => []
  | rounds + 1, state, data =>
    List.zipWith (· ^^^ ·) (data.take 64) (chacha20Block state) ++
      cryptLoop rounds (state.set 12 (state[12] + 1)) (data.drop 64)

variable (key : Vector UInt8 32) (nonce : Vector UInt8 12)

def tlsChacha20Crypt (counter : UInt32) (data : Bytes) : Bytes :=
  cryptLoop ((data.length + 63) / 64) (chacha20Init key nonce counter) data

/-- Five limbs of 26 bits, in words of 32. -/
structure Limbs where
  (l0 l1 l2 l3 l4 : UInt32)

structure Poly1305Ctx where
  r : Limbs
  h : Limbs
  pad : Vector UInt32 4
  buffer : Bytes

def limbs (data : Bytes) : Limbs :=
  let b := byteAt data
  ⟨load32 data 0, b 3 >>> 2 ||| b 4 <<< 6 ||| b 5 <<< 14 ||| b 6 <<< 22,
    b 6 >>> 4 ||| b 7 <<< 4 ||| b 8 <<< 12 ||| b 9 <<< 20,
    b 9 >>> 6 ||| b 10 <<< 2 ||| b 11 <<< 10 ||| b 12 <<< 18,
    b 12 >>> 8 ||| b 13 ||| b 14 <<< 8 ||| b 15 <<< 16⟩

def poly1305Init (key : Bytes) : Poly1305Ctx :=
  let r := limbs key
  ⟨⟨r.l0 &&& 0x0FFFFFFF, r.l1 &&& 0x0FFFFFFC, r.l2 &&& 0x0FFFFFFC, r.l3 &&& 0x0FFFFFFC,
    r.l4 &&& 0x00FFFFFC⟩, ⟨0, 0, 0, 0, 0⟩,
    #v[load32 key 16, load32 key 20, load32 key 24, load32 key 28], []⟩

def poly1305Block (r : Limbs) (hibit : UInt32) (h : Limbs) (data : Bytes) : Limbs :=
  let ⟨r0, r1, r2, r3, r4⟩ := r
  let s1 := r1 * 5
  let s2 := r2 * 5
  let s3 := r3 * 5
  let s4 := r4 * 5
  let m := limbs data
  let h0 := h.l0 + (m.l0 &&& 0x3ffffff)
  let h1 := h.l1 + (m.l1 &&& 0x3ffffff)
  let h2 := h.l2 + (m.l2 &&& 0x3ffffff)
  let h3 := h.l3 + (m.l3 &&& 0x3ffffff)
  let h4 := h.l4 + (m.l4 ||| hibit)
  let times (x0 x1 x2 x3 x4 : UInt32) : UInt64 := h0.toUInt64 * x0.toUInt64 +
    h1.toUInt64 * x1.toUInt64 + h2.toUInt64 * x2.toUInt64 + h3.toUInt64 * x3.toUInt64 +
    h4.toUInt64 * x4.toUInt64
  let carry (d : UInt64) : UInt32 := (d >>> 26).toUInt32
  let low (d : UInt64) : UInt32 := d.toUInt32 &&& 0x3ffffff
  let d0 := times r0 s4 s3 s2 s1
  let d1 := times r1 r0 s4 s3 s2 + (carry d0).toUInt64
  let d2 := times r2 r1 r0 s4 s3 + (carry d1).toUInt64
  let d3 := times r3 r2 r1 r0 s4 + (carry d2).toUInt64
  let d4 := times r4 r3 r2 r1 r0 + (carry d3).toUInt64
  let h0 := low d0 + carry d4 * 5
  ⟨h0 &&& 0x3ffffff, low d1 + h0 >>> 26, low d2, low d3, low d4⟩

def blocksLoop (r : Limbs) (hibit : UInt32) : Nat → Limbs → Bytes → Limbs
  | 0, h, _ => h
  | rounds + 1, h, data => blocksLoop r hibit rounds (poly1305Block r hibit h data) (data.drop 16)

def poly1305Blocks (ctx : Poly1305Ctx) (data : Bytes) (final : Bool) : Poly1305Ctx :=
  { ctx with
    h := blocksLoop ctx.r (if final then 0 else 0x1000000) (data.length / 16) ctx.h data }

/-- `poly1305_update` from where its buffer is empty. -/
def updateWhole (ctx : Poly1305Ctx) (data : Bytes) : Poly1305Ctx :=
  let blocks := data.length - data.length % 16
  let ctx := if 16 ≤ data.length then poly1305Blocks ctx (data.take blocks) false else ctx
  { ctx with buffer := data.drop blocks }

def poly1305Update (ctx : Poly1305Ctx) (data : Bytes) : Poly1305Ctx :=
  if 0 < ctx.buffer.length then
    let need := 16 - ctx.buffer.length
    if data.length < need then { ctx with buffer := ctx.buffer ++ data }
    else updateWhole (poly1305Blocks ctx (ctx.buffer ++ data.take need) false) (data.drop need)
  else updateWhole ctx data

def poly1305Final (ctx : Poly1305Ctx) : Bytes :=
  let ctx :=
    if 0 < ctx.buffer.length then
      poly1305Blocks ctx (ctx.buffer ++ 1 :: List.replicate (15 - ctx.buffer.length) 0) true
    else ctx
  let ⟨h0, h1, h2, h3, h4⟩ := ctx.h
  let low (x : UInt32) : UInt32 := x &&& 0x3ffffff
  let h2 := h2 + h1 >>> 26
  let h3 := h3 + h2 >>> 26
  let h4 := h4 + h3 >>> 26
  let h0 := h0 + h4 >>> 26 * 5
  let h1 := low h1 + h0 >>> 26
  let ⟨h0, h2, h3, h4⟩ := (low h0, low h2, low h3, low h4)
  let g0 := h0 + 5
  let g1 := h1 + g0 >>> 26
  let g2 := h2 + g1 >>> 26
  let g3 := h3 + g2 >>> 26
  let g4 := h4 + g3 >>> 26 - 0x4000000
  let mask := g4 >>> 31 - 1
  let select (h g : UInt32) : UInt32 := (h &&& ~~~mask) ||| (g &&& mask)
  let h0 := select h0 (low g0)
  let h1 := select h1 (low g1)
  let h2 := select h2 (low g2)
  let h3 := select h3 (low g3)
  let h4 := select h4 g4
  let f0 := h0.toUInt64 + (h1 <<< 26).toUInt64 + ctx.pad[0].toUInt64
  let f1 := f0 >>> 32 + (h1 >>> 6).toUInt64 + (h2 <<< 20).toUInt64 + ctx.pad[1].toUInt64
  let f2 := f1 >>> 32 + (h2 >>> 12).toUInt64 + (h3 <<< 14).toUInt64 + ctx.pad[2].toUInt64
  let f3 := f2 >>> 32 + (h3 >>> 18).toUInt64 + (h4 <<< 8).toUInt64 + ctx.pad[3].toUInt64
  store32 f0.toUInt32 ++ store32 f1.toUInt32 ++ store32 f2.toUInt32 ++ store32 f3.toUInt32

def pad16 (ctx : Poly1305Ctx) (len : Nat) : Poly1305Ctx :=
  let pad := (16 - len % 16) % 16
  if 0 < pad then poly1305Update ctx (List.replicate pad 0) else ctx

/-- The low 32 bits of the two lengths, each followed by four zero bytes. -/
def lens (aadLen dataLen : Nat) : Bytes :=
  store32 (UInt32.ofNat aadLen) ++ store32 0 ++ store32 (UInt32.ofNat dataLen) ++ store32 0

def tlsChacha20Poly1305Encrypt (aad plaintext : Bytes) : Bytes :=
  let polyKey := tlsChacha20Crypt key nonce 0 (List.replicate 64 0)
  let ciphertext := tlsChacha20Crypt key nonce 1 plaintext
  let poly := poly1305Init polyKey
  let poly := poly1305Update poly aad
  let poly := pad16 poly aad.length
  let poly := poly1305Update poly ciphertext
  let poly := pad16 poly plaintext.length
  let poly := poly1305Update poly (lens aad.length plaintext.length)
  ciphertext ++ poly1305Final poly

/-- The plaintext, or none where the source returns -1. -/
def tlsChacha20Poly1305Decrypt (aad ciphertext : Bytes) : Option Bytes :=
  if ciphertext.length < 16 then none
  else
    let dataLen := ciphertext.length - 16
    let tag := ciphertext.drop dataLen
    let data := ciphertext.take dataLen
    let polyKey := tlsChacha20Crypt key nonce 0 (List.replicate 64 0)
    let poly := poly1305Init polyKey
    let poly := poly1305Update poly aad
    let poly := pad16 poly aad.length
    let poly := poly1305Update poly data
    let poly := pad16 poly dataLen
    let poly := poly1305Update poly (lens aad.length dataLen)
    let computedTag := poly1305Final poly
    let diff := (computedTag.zip tag).foldl (fun diff bytes => diff ||| (bytes.1 ^^^ bytes.2)) (0 : UInt8)
    if diff ≠ 0 then none else some (tlsChacha20Crypt key nonce 1 data)

theorem chacha20Block_length (state : ChachaState) : (chacha20Block state).length = 64 := by
  unfold chacha20Block
  generalize Vector.zipWith _ _ state = words
  simp [store32, List.length_flatMap]

variable {stream : List UInt8} {rounds : Nat} {data : Bytes}

theorem zipWith_xor_twice (bytes : Bytes) (short : bytes.length ≤ stream.length) :
    List.zipWith (· ^^^ ·) (List.zipWith (· ^^^ ·) bytes stream) stream = bytes := by
  apply List.ext_getElem
  · simp [short]
  · intro i low high
    simp only [List.getElem_zipWith, UInt8.xor_assoc, UInt8.xor_self, UInt8.xor_zero]

/-- The second pass meets the same key stream at the same chunks. -/
theorem cryptLoop_twice (state : ChachaState) (enough : data.length ≤ 64 * rounds) :
    (cryptLoop rounds state data).length = data.length ∧
      cryptLoop rounds state (cryptLoop rounds state data) = data := by
  induction rounds generalizing state data with
  | zero =>
    cases List.length_eq_zero_iff.mp (Nat.le_zero.mp enough)
    exact ⟨rfl, rfl⟩
  | succ rounds ih =>
    simp only [cryptLoop]
    have stream := chacha20Block_length state
    have twice := @zipWith_xor_twice (chacha20Block state) (data.take 64)
      (by rw [stream]; exact List.length_take_le 64 data)
    have chunk : (List.zipWith (· ^^^ ·) (data.take 64) (chacha20Block state)).length =
        min 64 data.length := by
      rw [List.length_zipWith, List.length_take, stream]
      omega
    obtain ⟨rest, again⟩ := @ih (data.drop 64) (state.set 12 (state[12] + 1))
      (by rw [List.length_drop]; omega)
    rw [List.length_drop] at rest
    generalize List.zipWith _ (data.take 64) _ = first at chunk twice ⊢
    generalize cryptLoop rounds _ (data.drop 64) = others at rest again ⊢
    have parts : (first ++ others).take 64 = first ∧ (first ++ others).drop 64 = others := by
      by_cases whole : 64 ≤ data.length
      · have size : first.length = 64 := by omega
        exact ⟨List.take_left' size, List.drop_left' size⟩
      · cases List.length_eq_zero_iff.mp (show others.length = 0 by omega)
        rw [List.append_nil]
        exact ⟨List.take_of_length_le (by omega), List.drop_of_length_le (by omega)⟩
    rw [parts.1, parts.2, twice, again, List.take_append_drop, List.length_append]
    exact ⟨by omega, rfl⟩

theorem crypt_length (counter : UInt32) (data : Bytes) :
    (tlsChacha20Crypt key nonce counter data).length = data.length :=
  (cryptLoop_twice _ (by omega)).1

theorem crypt_twice (counter : UInt32) (data : Bytes) :
    tlsChacha20Crypt key nonce counter (tlsChacha20Crypt key nonce counter data) = data := by
  rw [tlsChacha20Crypt, crypt_length]
  exact (cryptLoop_twice _ (by omega)).2

theorem diff_eq_zero (computed tag : Bytes) (same : computed.length = tag.length) (start : UInt8) :
    (computed.zip tag).foldl (fun diff bytes => diff ||| (bytes.1 ^^^ bytes.2)) start = 0 ↔
      start = 0 ∧ computed = tag := by
  induction computed generalizing tag start with
  | nil =>
    cases List.length_eq_zero_iff.mp same.symm
    simp
  | cons byte rest ih =>
    cases tag with
    | nil => cases same
    | cons other others =>
      rw [List.zip_cons_cons, List.foldl_cons, ih others (Nat.succ.inj same)]
      rw [UInt8.or_eq_zero_iff, UInt8.xor_eq_zero_iff, and_assoc, List.cons.injEq]

variable (aad : Bytes)

def tagOf (data : Bytes) : Bytes :=
  let poly := poly1305Init (tlsChacha20Crypt key nonce 0 (List.replicate 64 0))
  let poly := pad16 (poly1305Update poly aad) aad.length
  let poly := pad16 (poly1305Update poly data) data.length
  poly1305Final (poly1305Update poly (lens aad.length data.length))

theorem encrypt_eq (plaintext : Bytes) : tlsChacha20Poly1305Encrypt key nonce aad plaintext =
    tlsChacha20Crypt key nonce 1 plaintext ++
      tagOf key nonce aad (tlsChacha20Crypt key nonce 1 plaintext) := by
  unfold tagOf
  rw [crypt_length]
  rfl

theorem decrypt_eq (data tag : Bytes) (size : tag.length = 16) :
    tlsChacha20Poly1305Decrypt key nonce aad (data ++ tag) =
      if tagOf key nonce aad data = tag then some (tlsChacha20Crypt key nonce 1 data) else none := by
  unfold tlsChacha20Poly1305Decrypt
  have length : (data ++ tag).length - 16 = data.length := by simp [size]
  dsimp only
  rw [if_neg (by simp [size]), length, List.take_left, List.drop_left, ite_not]
  refine if_congr ?_ rfl rfl
  exact (diff_eq_zero (tagOf key nonce aad data) tag size.symm 0).trans (and_iff_right rfl)

theorem decrypt_iff (ciphertext plaintext : Bytes) :
    tlsChacha20Poly1305Decrypt key nonce aad ciphertext = some plaintext ↔
      ciphertext = tlsChacha20Poly1305Encrypt key nonce aad plaintext := by
  constructor
  · intro opened
    have long : 16 ≤ ciphertext.length := by
      by_contra short
      rw [tlsChacha20Poly1305Decrypt, if_pos (by omega)] at opened
      cases opened
    have parts := List.take_append_drop (ciphertext.length - 16) ciphertext
    rw [← parts, decrypt_eq _ _ _ _ _ (by rw [List.length_drop]; omega)] at opened
    split at opened
    next same =>
      cases opened
      rw [encrypt_eq, crypt_twice, same, parts]
    · cases opened
  · rintro rfl
    rw [encrypt_eq, decrypt_eq _ _ _ _ _ rfl, if_pos rfl]
    exact congrArg some (crypt_twice _ _ _ _)

/-- What was encrypted decrypts, and what decrypts ends in the tag of its plaintext. -/
theorem decrypt_encrypted_only :
    (∀ plaintext, tlsChacha20Poly1305Decrypt key nonce aad
      (tlsChacha20Poly1305Encrypt key nonce aad plaintext) = some plaintext) ∧
    ∀ ciphertext plaintext, tlsChacha20Poly1305Decrypt key nonce aad ciphertext = some plaintext →
      ciphertext.length = plaintext.length + 16 ∧ ciphertext.drop plaintext.length =
        (tlsChacha20Poly1305Encrypt key nonce aad plaintext).drop plaintext.length := by
  refine ⟨fun plaintext => (decrypt_iff key nonce aad _ plaintext).mpr rfl, ?_⟩
  intro ciphertext plaintext opened
  rw [(decrypt_iff key nonce aad ciphertext plaintext).mp opened]
  refine ⟨?_, rfl⟩
  rw [encrypt_eq, List.length_append]
  exact congrArg (· + 16) (crypt_length _ _ _ _)

end ViperDos.Tls
