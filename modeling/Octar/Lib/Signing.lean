import Octar.Lib.Reader

namespace Go

def base64Symbol (plus slash : UInt8) (d : Nat) : UInt8 :=
  if d < 26 then UInt8.ofNat (65 + d)
  else if d < 52 then UInt8.ofNat (71 + d)
  else if d < 62 then UInt8.ofNat (d - 4)
  else if d = 62 then plus
  else slash

def stdSymbol : Nat → UInt8 := base64Symbol 43 47

def stdValue (b : UInt8) : Nat := (List.range 64).findIdx fun d => stdSymbol d == b

def encodeQuanta (symbol : Nat → UInt8) : Bytes → Bytes
  | a :: b :: c :: rest =>
    positional 64 symbol 4 (fromBigEndian [a, b, c]) ++ encodeQuanta symbol rest
  | [a, b] => positional 64 symbol 3 (fromBigEndian [a, b] * 4) ++ [61]
  | [a] => positional 64 symbol 2 (fromBigEndian [a] * 16) ++ [61, 61]
  | [] => []

def decodeSymbols (bs : Bytes) : Option Nat :=
  if bs.all fun b => stdValue b < 64 then some (number 64 stdValue bs) else none

def decodeQuanta : Bytes → Option Bytes
  | a :: b :: c :: d :: rest =>
    if d = 61 && rest.isEmpty then
      if c = 61 then (decodeSymbols [a, b]).map fun n => bigEndian 1 (n / 16)
      else (decodeSymbols [a, b, c]).map fun n => bigEndian 2 (n / 4)
    else do
      let n ← decodeSymbols [a, b, c, d]
      let data ← decodeQuanta rest
      return bigEndian 3 n ++ data
  | [] => some []
  | _ => none

/-- `base64.StdEncoding`.  Its decoder skips line breaks and does not look at the bits that the last
byte leaves over. -/
def stdEncoding (data : Bytes) : Bytes := encodeQuanta stdSymbol data

def stdDecoding (text : Bytes) : Option Bytes :=
  decodeQuanta (text.filter fun b => b ≠ 10 && b ≠ 13)

def rawURLEncoding (data : Bytes) : Bytes :=
  (encodeQuanta (base64Symbol 45 95) data).filter (· ≠ 61)

theorem stdValue_stdSymbol : ∀ d < 64, stdValue (stdSymbol d) = d := by decide

theorem stdSymbol_plain : ∀ d < 64, stdSymbol d ≠ 10 ∧ stdSymbol d ≠ 13 ∧ stdSymbol d ≠ 61 := by
  decide

theorem mem_positional {base : Nat} {symbol : Nat → UInt8} (hbase : 0 < base) {w n : Nat}
    {b : UInt8} (h : b ∈ positional base symbol w n) : ∃ d < base, b = symbol d := by
  induction w generalizing n with
  | zero => cases h
  | succ w ih =>
    rcases List.mem_append.mp h with h | h
    · exact ih h
    · exact ⟨n % base, Nat.mod_lt n hbase, List.mem_singleton.mp h⟩

theorem stdEncoding_plain {data : Bytes} {b : UInt8} (h : b ∈ stdEncoding data) :
    b ≠ 10 ∧ b ≠ 13 := by
  have hdigit : ∀ {w n}, b ∈ positional 64 stdSymbol w n → b ≠ 10 ∧ b ≠ 13 := by
    intro w n h
    obtain ⟨d, hd, rfl⟩ := mem_positional (by decide) h
    exact ⟨(stdSymbol_plain d hd).1, (stdSymbol_plain d hd).2.1⟩
  have hpad : ∀ {l : Bytes}, (∀ x ∈ l, x = 61) → b ∈ l → b ≠ 10 ∧ b ≠ 13 := by
    intro l hl h
    rw [hl b h]
    decide
  unfold stdEncoding at h
  fun_induction encodeQuanta stdSymbol data with
  | case1 a b' c rest ih =>
    rcases List.mem_append.mp h with h | h
    · exact hdigit h
    · exact ih h
  | case2 a b' => exact (List.mem_append.mp h).elim hdigit (hpad (by simp))
  | case3 a => exact (List.mem_append.mp h).elim hdigit (hpad (by simp))
  | case4 => cases h

theorem decodeSymbols_positional {w n : Nat} (hn : n < 64 ^ w) :
    decodeSymbols (positional 64 stdSymbol w n) = some n := by
  have hall : ((positional 64 stdSymbol w n).all fun b => stdValue b < 64) = true := by
    rw [List.all_eq_true]
    intro b hb
    obtain ⟨d, hd, rfl⟩ := mem_positional (by decide) hb
    rw [stdValue_stdSymbol d hd]
    exact decide_eq_true hd
  rw [decodeSymbols, if_pos hall, number_positional (by decide) stdValue_stdSymbol,
    Nat.mod_eq_of_lt hn]

theorem decodeQuanta_encodeQuanta (data : Bytes) :
    decodeQuanta (encodeQuanta stdSymbol data) = some data := by
  have hne : ∀ n, stdSymbol (n % 64) ≠ 61 := fun n =>
    (stdSymbol_plain _ (Nat.mod_lt n (by decide))).2.2
  fun_induction encodeQuanta stdSymbol data with
  | case1 a b c rest ih =>
    have hlt : fromBigEndian [a, b, c] < 16777216 := by simpa using fromBigEndian_lt [a, b, c]
    have hbytes := bigEndian_fromBigEndian [a, b, c]
    generalize fromBigEndian [a, b, c] = n at hlt hbytes ⊢
    have hdecode := decodeSymbols_positional (w := 4) hlt
    simp only [positional, List.nil_append, List.cons_append] at hdecode ⊢
    rw [decodeQuanta, if_neg (by simp [hne]), hdecode]
    simp only [ih, Option.bind_eq_bind, Option.bind_some, Option.pure_def, Option.some.injEq]
    exact congrArg (· ++ rest) hbytes
  | case2 a b =>
    have hlt : fromBigEndian [a, b] < 65536 := by simpa using fromBigEndian_lt [a, b]
    have hbytes := bigEndian_fromBigEndian [a, b]
    generalize fromBigEndian [a, b] = n at hlt hbytes ⊢
    have hdecode := decodeSymbols_positional (w := 3) (n := n * 4) (by omega)
    simp only [positional, List.nil_append, List.cons_append] at hdecode ⊢
    rw [decodeQuanta, if_pos (by decide), if_neg (hne _), hdecode, Option.map_some,
      Nat.mul_div_cancel n (by decide)]
    exact congrArg some hbytes
  | case3 a =>
    have hlt : fromBigEndian [a] < 256 := by simpa using fromBigEndian_lt [a]
    have hbytes := bigEndian_fromBigEndian [a]
    generalize fromBigEndian [a] = n at hlt hbytes ⊢
    have hdecode := decodeSymbols_positional (w := 2) (n := n * 16) (by omega)
    simp only [positional, List.nil_append, List.cons_append] at hdecode ⊢
    rw [decodeQuanta, if_pos (by decide), if_pos rfl, hdecode, Option.map_some,
      Nat.mul_div_cancel n (by decide)]
    exact congrArg some hbytes
  | case4 => rfl

theorem stdDecoding_stdEncoding (data : Bytes) : stdDecoding (stdEncoding data) = some data := by
  have hfilter : (stdEncoding data).filter (fun b => b ≠ 10 && b ≠ 13) = stdEncoding data := by
    rw [List.filter_eq_self]
    intro b hb
    simpa using stdEncoding_plain hb
  rw [stdDecoding, hfilter]
  exact decodeQuanta_encodeQuanta data

namespace Sha256

structure Words where
  a : UInt32
  b : UInt32
  c : UInt32
  d : UInt32
  e : UInt32
  f : UInt32
  g : UInt32
  h : UInt32

def initial : Words :=
  ⟨0x6a09e667, 0xbb67ae85, 0x3c6ef372, 0xa54ff53a, 0x510e527f, 0x9b05688c, 0x1f83d9ab, 0x5be0cd19⟩

def constants : List UInt32 :=
  [0x428a2f98, 0x71374491, 0xb5c0fbcf, 0xe9b5dba5, 0x3956c25b, 0x59f111f1, 0x923f82a4, 0xab1c5ed5,
    0xd807aa98, 0x12835b01, 0x243185be, 0x550c7dc3, 0x72be5d74, 0x80deb1fe, 0x9bdc06a7, 0xc19bf174,
    0xe49b69c1, 0xefbe4786, 0x0fc19dc6, 0x240ca1cc, 0x2de92c6f, 0x4a7484aa, 0x5cb0a9dc, 0x76f988da,
    0x983e5152, 0xa831c66d, 0xb00327c8, 0xbf597fc7, 0xc6e00bf3, 0xd5a79147, 0x06ca6351, 0x14292967,
    0x27b70a85, 0x2e1b2138, 0x4d2c6dfc, 0x53380d13, 0x650a7354, 0x766a0abb, 0x81c2c92e, 0x92722c85,
    0xa2bfe8a1, 0xa81a664b, 0xc24b8b70, 0xc76c51a3, 0xd192e819, 0xd6990624, 0xf40e3585, 0x106aa070,
    0x19a4c116, 0x1e376c08, 0x2748774c, 0x34b0bcb5, 0x391c0cb3, 0x4ed8aa4a, 0x5b9cca4f, 0x682e6ff3,
    0x748f82ee, 0x78a5636f, 0x84c87814, 0x8cc70208, 0x90befffa, 0xa4506ceb, 0xbef9a3f7, 0xc67178f2]

def rotate (x n : UInt32) : UInt32 := x >>> n ||| x <<< (32 - n)

def padded (data : Bytes) : Bytes :=
  data ++ [0x80] ++ List.replicate ((119 - data.length % 64) % 64) 0 ++
    bigEndian 8 (data.length * 8)

def words : Bytes → List UInt32
  | a :: b :: c :: d :: rest => UInt32.ofNat (fromBigEndian [a, b, c, d]) :: words rest
  | _ => []

/-- The schedule of a block, the latest word first. -/
def schedule : Nat → List UInt32 → List UInt32
  | 0, w => w
  | n + 1, w =>
    let x := w.getD 14 0
    let y := w.getD 1 0
    let s₀ := rotate x 7 ^^^ rotate x 18 ^^^ x >>> 3
    let s₁ := rotate y 17 ^^^ rotate y 19 ^^^ y >>> 10
    schedule n ((w.getD 15 0 + s₀ + w.getD 6 0 + s₁) :: w)

def round (s : Words) (kw : UInt32 × UInt32) : Words :=
  let s₁ := rotate s.e 6 ^^^ rotate s.e 11 ^^^ rotate s.e 25
  let t₁ := s.h + s₁ + (s.e &&& s.f ^^^ ~~~s.e &&& s.g) + kw.1 + kw.2
  let s₀ := rotate s.a 2 ^^^ rotate s.a 13 ^^^ rotate s.a 22
  let t₂ := s₀ + (s.a &&& s.b ^^^ s.a &&& s.c ^^^ s.b &&& s.c)
  ⟨t₁ + t₂, s.a, s.b, s.c, s.d + t₁, s.e, s.f, s.g⟩

def compress (s : Words) (block : List UInt32) : Words :=
  let t := (constants.zip (schedule 48 block.reverse).reverse).foldl round s
  ⟨s.a + t.a, s.b + t.b, s.c + t.c, s.d + t.d, s.e + t.e, s.f + t.f, s.g + t.g, s.h + t.h⟩

def blocks : Nat → List UInt32 → List (List UInt32)
  | 0, _ => []
  | n + 1, w => w.take 16 :: blocks n (w.drop 16)

def Words.bytes (s : Words) : Bytes :=
  [s.a, s.b, s.c, s.d, s.e, s.f, s.g, s.h].flatMap fun w => bigEndian 4 w.toNat

def sum (data : Bytes) : Bytes :=
  ((blocks ((padded data).length / 64) (words (padded data))).foldl compress initial).bytes

theorem length_sum (data : Bytes) : (sum data).length = 32 := by
  simp [sum, Words.bytes, bigEndian]

example : sum (str "abc") = bigEndian 32
    0xba7816bf8f01cfea414140de5dae2223b00361a396177a9cb410ff61f20015ad := by
  decide +kernel

end Sha256

structure RSAKey where
  size : Nat
  modulus : Nat
  exponent : Nat

def powMod (b n e : Nat) : Nat :=
  if e = 0 then 1 % n
  else
    let half := powMod b n (e / 2)
    if e % 2 = 0 then half * half % n else half * half % n * b % n
termination_by e

def digestInfo : Bytes :=
  [0x30, 0x31, 0x30, 0x0d, 0x06, 0x09, 0x60, 0x86, 0x48, 0x01, 0x65, 0x03, 0x04, 0x02, 0x01, 0x05,
    0x00, 0x04, 0x20]

/-- `rsa.SignPKCS1v15` of the SHA-256 of the data. -/
def RSAKey.sign (k : RSAKey) (data : Bytes) : Option Bytes :=
  if k.size < 62 then none
  else
    let em := [0, 1] ++ List.replicate (k.size - 54) 0xff ++ [0] ++ digestInfo ++ Sha256.sum data
    some (bigEndian k.size (powMod (fromBigEndian em) k.modulus k.exponent))

end Go
