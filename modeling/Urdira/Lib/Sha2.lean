import Urdira.Lib.ByteOrder

open ByteOrder

namespace Sha2

def word (x : ℕ) : ℕ := x % 4294967296

def rotr (x n : ℕ) : ℕ := (x >>> n) ||| word (x <<< (32 - n))

def roundConstants : List ℕ :=
  [0x428a2f98, 0x71374491, 0xb5c0fbcf, 0xe9b5dba5, 0x3956c25b, 0x59f111f1, 0x923f82a4, 0xab1c5ed5,
   0xd807aa98, 0x12835b01, 0x243185be, 0x550c7dc3, 0x72be5d74, 0x80deb1fe, 0x9bdc06a7, 0xc19bf174,
   0xe49b69c1, 0xefbe4786, 0x0fc19dc6, 0x240ca1cc, 0x2de92c6f, 0x4a7484aa, 0x5cb0a9dc, 0x76f988da,
   0x983e5152, 0xa831c66d, 0xb00327c8, 0xbf597fc7, 0xc6e00bf3, 0xd5a79147, 0x06ca6351, 0x14292967,
   0x27b70a85, 0x2e1b2138, 0x4d2c6dfc, 0x53380d13, 0x650a7354, 0x766a0abb, 0x81c2c92e, 0x92722c85,
   0xa2bfe8a1, 0xa81a664b, 0xc24b8b70, 0xc76c51a3, 0xd192e819, 0xd6990624, 0xf40e3585, 0x106aa070,
   0x19a4c116, 0x1e376c08, 0x2748774c, 0x34b0bcb5, 0x391c0cb3, 0x4ed8aa4a, 0x5b9cca4f, 0x682e6ff3,
   0x748f82ee, 0x78a5636f, 0x84c87814, 0x8cc70208, 0x90befffa, 0xa4506ceb, 0xbef9a3f7, 0xc67178f2]

def initial : List ℕ :=
  [0x6a09e667, 0xbb67ae85, 0x3c6ef372, 0xa54ff53a, 0x510e527f, 0x9b05688c, 0x1f83d9ab, 0x5be0cd19]

def next (window : List ℕ) : ℕ :=
  let s₀ := fun x => rotr x 7 ^^^ rotr x 18 ^^^ (x >>> 3)
  let s₁ := fun x => rotr x 17 ^^^ rotr x 19 ^^^ (x >>> 10)
  word (window.getD 0 0 + s₀ (window.getD 1 0) + window.getD 9 0 + s₁ (window.getD 14 0))

def round (state : List ℕ) (k w : ℕ) : List ℕ :=
  match state with
  | [a, b, c, d, e, f, g, h] =>
    let t₁ := word (h + (rotr e 6 ^^^ rotr e 11 ^^^ rotr e 25) +
      ((e &&& f) ^^^ ((4294967295 - e) &&& g)) + k + w)
    let t₂ :=
      word ((rotr a 2 ^^^ rotr a 13 ^^^ rotr a 22) + ((a &&& b) ^^^ (a &&& c) ^^^ (b &&& c)))
    [word (t₁ + t₂), a, b, c, word (d + t₁), e, f, g]
  | _ => state

def rounds : List ℕ → List ℕ → List ℕ → List ℕ
  | [], _, state => state
  | k :: ks, window, state => rounds ks (window.tail ++ [next window])
      (round state k (window.headD 0))

def compress (state block : List ℕ) : List ℕ :=
  List.zipWith (fun a b => word (a + b)) state (rounds roundConstants block state)

def padded (message : Bytes) : Bytes :=
  let zeros := (119 - message.length % 64) % 64
  let length : Bytes :=
    (List.range 8).map (fun i => Fin.ofNat 256 ((8 * message.length) >>> (8 * (7 - i))))
  message ++ (128 :: List.replicate zeros 0) ++ length

def words : Bytes → List ℕ
  | a :: b :: c :: d :: rest => (((a.val * 256 + b.val) * 256 + c.val) * 256 + d.val) :: words rest
  | _ => []

def blocks (ws : List ℕ) : List (List ℕ) :=
  (List.range (ws.length / 16)).map (fun i => (ws.drop (16 * i)).take 16)

def finish (state : List ℕ) : Bytes :=
  state.flatMap (fun w => (List.range 4).map (fun i => Fin.ofNat 256 (w >>> (8 * (3 - i)))))

theorem length_round {state : List ℕ} (h : state.length = 8) (k w : ℕ) :
    (round state k w).length = 8 := by
  unfold round
  split
  · rfl
  · exact h

theorem length_rounds (ks window : List ℕ) {state : List ℕ} (h : state.length = 8) :
    (rounds ks window state).length = 8 := by
  induction ks generalizing window state with
  | nil => exact h
  | cons k ks ih => exact ih _ (length_round h _ _)

theorem length_compress {state : List ℕ} (h : state.length = 8) (block : List ℕ) :
    (compress state block).length = 8 := by
  rw [compress, List.length_zipWith, length_rounds _ _ h, h, min_self]

theorem length_foldl_compress (bs : List (List ℕ)) {state : List ℕ} (h : state.length = 8) :
    (bs.foldl compress state).length = 8 := by
  induction bs generalizing state with
  | nil => exact h
  | cons b bs ih => exact ih (length_compress h b)

theorem length_finish (state : List ℕ) : (finish state).length = 4 * state.length := by
  induction state with
  | nil => rfl
  | cons w state ih =>
    have hcons : finish (w :: state) =
        (List.range 4).map (fun i => Fin.ofNat 256 (w >>> (8 * (3 - i)))) ++ finish state := rfl
    rw [hcons, List.length_append, List.length_map, List.length_range, ih, List.length_cons]
    omega

def sha256 (message : Bytes) : Block 32 where
  bytes := finish ((blocks (words (padded message))).foldl compress initial)
  size := by rw [length_finish, length_foldl_compress _ rfl]

example : (sha256 [97, 98, 99]).bytes.take 4 = [0xba, 0x78, 0x16, 0xbf] := by decide +kernel

end Sha2
