set_option autoImplicit false

namespace Lox.Digest

abbrev Block := Vector UInt64 16

def start : Vector UInt64 8 :=
  #v[0x6a09e667f3bcc908, 0xbb67ae8584caa73b, 0x3c6ef372fe94f82b, 0xa54ff53a5f1d36f1,
     0x510e527fade682d1, 0x9b05688c2b3e6c1f, 0x1f83d9abfb41bd6b, 0x5be0cd19137e2179]

def schedule : List (Vector (Fin 16) 16) :=
  let a := #v[0, 1, 2, 3, 4, 5, 6, 7, 8, 9, 10, 11, 12, 13, 14, 15]
  let b := #v[14, 10, 4, 8, 9, 15, 13, 6, 1, 12, 0, 2, 11, 7, 5, 3]
  [a, b,
   #v[11, 8, 12, 0, 5, 2, 15, 13, 10, 14, 3, 6, 7, 1, 9, 4],
   #v[7, 9, 3, 1, 13, 12, 11, 14, 2, 6, 5, 10, 4, 0, 15, 8],
   #v[9, 0, 5, 7, 2, 4, 10, 15, 14, 1, 11, 12, 6, 8, 3, 13],
   #v[2, 12, 6, 10, 0, 11, 8, 3, 4, 13, 7, 5, 15, 14, 1, 9],
   #v[12, 5, 1, 15, 14, 13, 4, 10, 0, 7, 6, 3, 9, 2, 8, 11],
   #v[13, 11, 7, 14, 12, 1, 3, 9, 5, 0, 15, 4, 8, 6, 2, 10],
   #v[6, 15, 14, 9, 11, 3, 0, 8, 12, 2, 13, 7, 1, 4, 10, 5],
   #v[10, 2, 8, 4, 7, 6, 1, 5, 15, 11, 9, 14, 3, 12, 13, 0],
   a, b]

def rotateRight (x : UInt64) (n : UInt64) : UInt64 :=
  (x >>> n) ||| (x <<< (64 - n))

def mix (v : Block) (a b c d : Fin 16) (x y : UInt64) : Block :=
  let v := v.set a (v[a] + v[b] + x)
  let v := v.set d (rotateRight (v[d] ^^^ v[a]) 32)
  let v := v.set c (v[c] + v[d])
  let v := v.set b (rotateRight (v[b] ^^^ v[c]) 24)
  let v := v.set a (v[a] + v[b] + y)
  let v := v.set d (rotateRight (v[d] ^^^ v[a]) 16)
  let v := v.set c (v[c] + v[d])
  v.set b (rotateRight (v[b] ^^^ v[c]) 63)

def round (m : Block) (v : Block) (s : Vector (Fin 16) 16) : Block :=
  let v := mix v 0 4 8 12 m[s[0]] m[s[1]]
  let v := mix v 1 5 9 13 m[s[2]] m[s[3]]
  let v := mix v 2 6 10 14 m[s[4]] m[s[5]]
  let v := mix v 3 7 11 15 m[s[6]] m[s[7]]
  let v := mix v 0 5 10 15 m[s[8]] m[s[9]]
  let v := mix v 1 6 11 12 m[s[10]] m[s[11]]
  let v := mix v 2 7 8 13 m[s[12]] m[s[13]]
  mix v 3 4 9 14 m[s[14]] m[s[15]]

def compress (h : Vector UInt64 8) (m : Block) (count : Nat) (last : Bool) : Vector UInt64 8 :=
  let v : Block := h ++ start
  let v := v.set 12 (v[12] ^^^ count.toUInt64)
  let v := if last then v.set 14 (v[14] ^^^ 0xffffffffffffffff) else v
  let v := schedule.foldl (round m) v
  Vector.ofFn fun i => h[i] ^^^ v[i.val] ^^^ v[i.val + 8]

def byteAt (bytes : ByteArray) (place : Nat) : UInt8 :=
  if h : place < bytes.size then bytes[place] else 0

def word (bytes : ByteArray) (offset : Nat) : UInt64 :=
  (List.range 8).foldr (fun i w => (w <<< 8) ||| (byteAt bytes (offset + i)).toUInt64) 0

def block (bytes : ByteArray) (index : Nat) : Block :=
  Vector.ofFn fun i => word bytes (128 * index + 8 * i.val)

-- BLAKE2b with 64 bits, without a key, a salt or a personalization.
def ofBytes (bytes : ByteArray) : Nat :=
  let blocks := max 1 ((bytes.size + 127) / 128)
  let first := start.set 0 (start[0] ^^^ 0x01010008)
  let final := (List.range blocks).foldl (fun h i =>
    compress h (block bytes i) (min bytes.size (128 * (i + 1))) (i + 1 == blocks)) first
  (List.range 8).foldl (fun n i => 256 * n + (final[0].toNat >>> (8 * i)) % 256) 0

def ofText (s : String) : Nat :=
  ofBytes s.toUTF8

end Lox.Digest
