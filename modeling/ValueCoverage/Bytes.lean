/-!
# Bytes

Byte sequences, and words stored in them with the most significant byte first. A reader takes a
word off the front and returns the rest; it fails if the bytes run out. What a writer wrote, a
reader reads back, whatever follows.
-/

namespace ValueCoverage

/-- A sequence of bytes. -/
abbrev Bytes := List UInt8

namespace Bytes

/-- A two-byte word. -/
def put16 (w : UInt16) : Bytes :=
  [UInt8.ofNat (w.toNat / 0x100), UInt8.ofNat w.toNat]

/-- A four-byte word. -/
def put32 (w : UInt32) : Bytes :=
  [UInt8.ofNat (w.toNat / 0x1000000), UInt8.ofNat (w.toNat / 0x10000),
    UInt8.ofNat (w.toNat / 0x100), UInt8.ofNat w.toNat]

/-- An eight-byte word. -/
def put64 (w : UInt64) : Bytes :=
  put32 (UInt32.ofNat (w.toNat / 0x100000000)) ++ put32 (UInt32.ofNat w.toNat)

/-- Takes one byte off the front. -/
def get8? : Bytes → Option (UInt8 × Bytes)
  | a :: rest => some (a, rest)
  | [] => none

/-- Takes a two-byte word off the front. -/
def get16? : Bytes → Option (UInt16 × Bytes)
  | a :: b :: rest => some (UInt16.ofNat (a.toNat * 0x100 + b.toNat), rest)
  | _ => none

/-- Takes a four-byte word off the front. -/
def get32? : Bytes → Option (UInt32 × Bytes)
  | a :: b :: c :: d :: rest =>
    some (UInt32.ofNat (((a.toNat * 0x100 + b.toNat) * 0x100 + c.toNat) * 0x100 + d.toNat), rest)
  | _ => none

/-- Takes `n` bytes off the front. -/
def split? (n : Nat) (bytes : Bytes) : Option (Bytes × Bytes) :=
  let front := bytes.take n
  if front.length = n then some (front, bytes.drop n) else none

/-- Takes `n` things off the front, one after the other; those taken so far are kept back to
front. -/
def many {ε α : Type} (item : Bytes → Except ε (α × Bytes)) :
    (n : Nat) → List α → Bytes → Except ε (List α × Bytes)
  | 0, done, bytes => .ok (done.reverse, bytes)
  | n + 1, done, bytes =>
    match item bytes with
    | .error e => .error e
    | .ok (a, rest) => many item n (a :: done) rest

@[simp] theorem get16?_put16 (w : UInt16) (rest : Bytes) :
    get16? (put16 w ++ rest) = some (w, rest) := by
  have h := w.toNat_lt
  simp only [put16, List.cons_append, List.nil_append, get16?, Option.some.injEq, Prod.mk.injEq,
    and_true]
  apply UInt16.toNat_inj.1
  simp only [UInt8.toNat_ofNat', UInt16.toNat_ofNat']
  omega

@[simp] theorem get32?_put32 (w : UInt32) (rest : Bytes) :
    get32? (put32 w ++ rest) = some (w, rest) := by
  have h := w.toNat_lt
  simp only [put32, List.cons_append, List.nil_append, get32?, Option.some.injEq, Prod.mk.injEq,
    and_true]
  apply UInt32.toNat_inj.1
  simp only [UInt8.toNat_ofNat', UInt32.toNat_ofNat']
  omega

theorem split?_append (front rest : Bytes) :
    split? front.length (front ++ rest) = some (front, rest) := by
  simp [split?]

end Bytes

end ValueCoverage
