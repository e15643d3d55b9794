import Fidensur.ByteWords

set_option autoImplicit false

/-! Contract ABI encodings: heads with offsets, then tails, and a decoder that follows the offsets. -/

namespace AbiLayout

open ByteWords

/-- A type by its layout. Every number, address and fixed byte string is a word. -/
inductive Layout
  | word
  | bytes
  | array (elem : Layout)
  | tuple (fields : List Layout)

/-- The components of an array and those of a tuple are both a list. -/
inductive Value
  | word (n : ℕ)
  | bytes (b : Bytes)
  | list (items : List Value)

section Definitions

mutual

def Layout.dynamic : Layout → Bool
  | .word => false
  | .bytes | .array _ => true
  | .tuple fields => anyDynamic fields

def anyDynamic : List Layout → Bool
  | [] => false
  | l :: ls => l.dynamic || anyDynamic ls

end

mutual

def Layout.size : Layout → ℕ
  | .word | .bytes | .array _ => 32
  | .tuple fields => sizes fields

def sizes : List Layout → ℕ
  | [] => 0
  | l :: ls => l.size + sizes ls

end

structure Part where
  dynamic : Bool
  body : Bytes

def Part.head (part : Part) : ℕ := if part.dynamic then 32 else part.body.length

/-- The heads, when the next tail starts at `offset`. -/
def heads : ℕ → List Part → Bytes
  | _, [] => []
  | offset, part :: parts =>
    if part.dynamic then ofNat 32 offset ++ heads (offset + part.body.length) parts
    else part.body ++ heads offset parts

def tails : List Part → Bytes
  | [] => []
  | part :: parts => if part.dynamic then part.body ++ tails parts else tails parts

def join (parts : List Part) : Bytes := heads (parts.map Part.head).sum parts ++ tails parts

def padding (n : ℕ) : Bytes := List.replicate ((32 - n % 32) % 32) 0

mutual

def encode : Layout → Value → Bytes
  | .word, .word n => ofNat 32 n
  | .bytes, .bytes b => ofNat 32 b.length ++ b ++ padding b.length
  | .array l, .list vs => ofNat 32 vs.length ++ join (vs.map fun v => ⟨l.dynamic, encode l v⟩)
  | .tuple ls, .list vs => join (parts ls vs)
  | _, _ => []

def parts : List Layout → List Value → List Part
  | l :: ls, v :: vs => ⟨l.dynamic, encode l v⟩ :: parts ls vs
  | _, _ => []

end

mutual

def Fits : Layout → Value → Prop
  | .word, .word n => n < 256 ^ 32
  | .bytes, .bytes _ => True
  | .array l, .list vs => vs.length < 256 ^ 32 ∧ ∀ v ∈ vs, Fits l v
  | .tuple ls, .list vs => AllFit ls vs
  | _, _ => False

def AllFit : List Layout → List Value → Prop
  | [], [] => True
  | l :: ls, v :: vs => Fits l v ∧ AllFit ls vs
  | _, _ => False

end

variable (data : Bytes)

def wordAt (position : ℕ) : Option ℕ :=
  if position + 32 ≤ data.length then some (value ((data.drop position).take 32)) else none

def slice (position length : ℕ) : Option Bytes :=
  if position + length ≤ data.length then some ((data.drop position).take length) else none

structure Reader where
  dynamic : Bool
  size : ℕ
  read : ℕ → Option Value

def Reader.head (reader : Reader) : ℕ := if reader.dynamic then 32 else reader.size

/-- Offsets are counted from `base`, the heads are read at the cursor. -/
def readAll (base : ℕ) : List Reader → ℕ → Option (List Value)
  | [], _ => some []
  | reader :: readers, cursor => do
    let v ← if reader.dynamic then (wordAt data cursor).bind fun offset => reader.read (base + offset)
      else reader.read cursor
    let vs ← readAll base readers (cursor + reader.head)
    return v :: vs

mutual

def decode : Layout → ℕ → Option Value
  | .word, position => (wordAt data position).map .word
  | .bytes, position => do
    let length ← wordAt data position
    let b ← slice data (position + 32) length
    return .bytes b
  | .array l, position => do
    let count ← wordAt data position
    let reader : Reader := ⟨l.dynamic, l.size, decode l⟩
    let base := position + 32
    if base + reader.head * count ≤ data.length then
      (readAll data base (List.replicate count reader) base).map .list
    else none
  | .tuple ls, position => (readAll data position (readers ls) position).map .list

def readers : List Layout → List Reader
  | [] => []
  | l :: ls => ⟨l.dynamic, l.size, decode l⟩ :: readers ls

end

end Definitions

section Lengths

theorem length_heads (offset : ℕ) (ps : List Part) :
    (heads offset ps).length = (ps.map Part.head).sum := by
  induction ps generalizing offset with
  | nil => rfl
  | cons part ps ih =>
    cases hd : part.dynamic <;> simp [heads, Part.head, hd, ih]

theorem length_join (ps : List Part) : (join ps).length = (ps.map Part.head).sum + (tails ps).length := by
  rw [join, List.length_append, length_heads]

mutual

theorem length_encode : ∀ {l : Layout} {v : Value}, Fits l v → l.dynamic = false →
    (encode l v).length = l.size
  | .word, .word n, _, _ => length_ofNat 32 n
  | .tuple ls, .list vs, h, hd => by
    obtain ⟨hheads, htails⟩ := length_parts h hd
    rw [encode, length_join, hheads, htails]
    rfl

theorem length_parts : ∀ {ls : List Layout} {vs : List Value}, AllFit ls vs → anyDynamic ls = false →
    ((parts ls vs).map Part.head).sum = sizes ls ∧ tails (parts ls vs) = []
  | [], [], _, _ => ⟨rfl, rfl⟩
  | l :: ls, v :: vs, h, hd => by
    obtain ⟨hl, hls⟩ := Bool.or_eq_false_iff.mp hd
    obtain ⟨hheads, htails⟩ := length_parts h.2 hls
    have hlength := length_encode h.1 hl
    simp [parts, tails, Part.head, sizes, hl, hheads, htails, hlength]

end

end Lengths

section Reading

variable {data : Bytes} {position : ℕ}

theorem prefix_parts {a b : Bytes} (h : a ++ b <+: data.drop position) :
    a <+: data.drop position ∧ b <+: data.drop (position + a.length) := by
  obtain ⟨t, ht⟩ := h
  refine ⟨⟨b ++ t, by rw [← List.append_assoc, ht]⟩, t, ?_⟩
  rw [← List.drop_drop, ← ht, List.append_assoc, List.drop_left]

theorem prefix_fits {b : Bytes} (h : b <+: data.drop position) (hp : position ≤ data.length) :
    position + b.length ≤ data.length := by
  have hle := h.length_le
  rw [List.length_drop] at hle
  omega

theorem wordAt_prefix {n : ℕ} (h : ofNat 32 n <+: data.drop position) (hn : n < 256 ^ 32) :
    wordAt data position = some n := by
  have hle := h.length_le
  rw [length_ofNat, List.length_drop] at hle
  have htake := List.prefix_iff_eq_take.mp h
  rw [length_ofNat] at htake
  rw [wordAt, if_pos (by omega), ← htake, value_ofNat, Nat.mod_eq_of_lt hn]

theorem slice_prefix {b : Bytes} (h : b <+: data.drop position) (hp : position ≤ data.length) :
    slice data position b.length = some b := by
  rw [slice, if_pos (prefix_fits h hp), ← List.prefix_iff_eq_take.mp h]

/-- Each reader reads its component wherever its body lies. -/
inductive Reads (data : Bytes) : List Reader → List Part → List Value → Prop
  | nil : Reads data [] [] []
  | cons {reader : Reader} {part : Part} {v : Value} {readers : List Reader} {parts : List Part}
      {vs : List Value} (hdynamic : reader.dynamic = part.dynamic)
      (hsize : part.dynamic = false → part.body.length = reader.size)
      (hread : part.body.length < 256 ^ 32 → ∀ position, part.body <+: data.drop position →
        reader.read position = some v) (hrest : Reads data readers parts vs) :
      Reads data (reader :: readers) (part :: parts) (v :: vs)

variable {rs : List Reader} {ps : List Part} {vs : List Value} {base : ℕ}

theorem readAll_reads (h : Reads data rs ps vs) {cursor offset : ℕ}
    (hheads : heads offset ps <+: data.drop cursor) (htails : tails ps <+: data.drop (base + offset))
    (hlength : (heads offset ps).length < 256 ^ 32) (hoffset : offset + (tails ps).length < 256 ^ 32) :
    readAll data base rs cursor = some vs := by
  induction h generalizing cursor offset with
  | nil => rfl
  | @cons reader part v readers parts vs hdynamic hsize hread _ ih =>
    cases hd : part.dynamic with
    | false =>
      simp only [heads, tails, hd, if_false, Bool.false_eq_true] at hheads htails hlength hoffset
      obtain ⟨hbody, hheads⟩ := prefix_parts hheads
      rw [List.length_append] at hlength
      have hhead : reader.head = part.body.length := by
        rw [Reader.head, hdynamic, hd, hsize hd]
        rfl
      rw [readAll, hdynamic, hd, hhead, if_neg Bool.false_ne_true, hread (by omega) cursor hbody]
      simp only [ih hheads htails (by omega) hoffset, bind, Option.bind, pure]
    | true =>
      simp only [heads, tails, hd, if_true] at hheads htails hlength hoffset
      obtain ⟨hword, hheads⟩ := prefix_parts hheads
      obtain ⟨hbody, htails⟩ := prefix_parts htails
      rw [length_ofNat] at hheads
      rw [List.length_append] at hlength hoffset
      rw [Nat.add_assoc] at htails
      have hhead : reader.head = 32 := by
        rw [Reader.head, hdynamic, hd]
        rfl
      rw [readAll, hdynamic, hd, hhead, if_pos rfl, wordAt_prefix hword (by omega), Option.bind_some,
        hread (by omega) _ hbody]
      simp only [ih hheads htails (by omega) (by omega), bind, Option.bind, pure]

theorem Reads.heads {reader : Reader} {n : ℕ} (h : Reads data (List.replicate n reader) ps vs) :
    (ps.map Part.head).sum = reader.head * n := by
  induction n generalizing ps vs with
  | zero =>
    cases h
    rfl
  | succ n ih =>
    rw [List.replicate_succ] at h
    cases h with
    | @cons _ part _ _ parts _ hdynamic hsize _ hrest =>
      have hhead : part.head = reader.head := by
        rw [Part.head, Reader.head, hdynamic]
        cases hd : part.dynamic with
        | false => exact hsize hd
        | true => rfl
      rw [List.map_cons, List.sum_cons, ih hrest, hhead, Nat.mul_succ, Nat.add_comm]

theorem readAll_join (h : Reads data rs ps vs) (hjoin : join ps <+: data.drop base)
    (hlength : (join ps).length < 256 ^ 32) : readAll data base rs base = some vs := by
  obtain ⟨hheads, htails⟩ := prefix_parts hjoin
  rw [length_heads] at htails
  rw [length_join] at hlength
  exact readAll_reads h hheads htails (by rw [length_heads]; omega) hlength

theorem reads_replicate {l : Layout} {reader : Reader} (hdynamic : reader.dynamic = l.dynamic)
    (hsize : reader.size = l.size)
    (hread : ∀ v, Fits l v → (encode l v).length < 256 ^ 32 → ∀ position,
      encode l v <+: data.drop position → reader.read position = some v) (vs : List Value)
    (h : ∀ v ∈ vs, Fits l v) :
    Reads data (List.replicate vs.length reader) (vs.map fun v => ⟨l.dynamic, encode l v⟩) vs := by
  induction vs with
  | nil => exact .nil
  | cons v vs ih =>
    obtain ⟨hv, hvs⟩ := List.forall_mem_cons.mp h
    exact .cons hdynamic (fun hd => (length_encode hv hd).trans hsize.symm) (hread v hv) (ih hvs)

end Reading

section RoundTrip

variable {data : Bytes}

mutual

/-- A value is read back from wherever its encoding lies. -/
theorem decode_encode : ∀ (l : Layout) (v : Value), Fits l v → (encode l v).length < 256 ^ 32 →
    ∀ position, encode l v <+: data.drop position → decode data l position = some v
  | .word, .word n, h => by
    intro _ position hdata
    rw [decode, wordAt_prefix hdata h]
    rfl
  | .bytes, .bytes b, _ => by
    intro hlength position hdata
    rw [encode, List.append_assoc] at hdata hlength
    obtain ⟨hword, hrest⟩ := prefix_parts hdata
    obtain ⟨hbytes, -⟩ := prefix_parts hrest
    rw [length_ofNat] at hbytes
    rw [List.length_append, List.length_append] at hlength
    have hp := hword.length_le
    rw [length_ofNat, List.length_drop] at hp
    rw [decode, wordAt_prefix hword (by omega)]
    simp only [bind, Option.bind, slice_prefix hbytes (by omega), pure]
  | .array l, .list vs, h => by
    intro hlength position hdata
    rw [encode] at hdata hlength
    obtain ⟨hword, hjoin⟩ := prefix_parts hdata
    rw [length_ofNat] at hjoin
    rw [List.length_append] at hlength
    have hreads : Reads data (List.replicate vs.length ⟨l.dynamic, l.size, decode data l⟩) _ vs :=
      reads_replicate rfl rfl (decode_encode l) vs h.2
    have hp := hword.length_le
    rw [length_ofNat, List.length_drop] at hp
    have hheads := prefix_fits (prefix_parts hjoin).1 (by omega)
    rw [length_heads, hreads.heads] at hheads
    rw [decode, wordAt_prefix hword h.1]
    simp only [bind, Option.bind]
    rw [if_pos hheads, readAll_join hreads hjoin (by omega)]
    rfl
  | .tuple ls, .list vs, h => by
    intro hlength position hdata
    rw [encode] at hdata hlength
    rw [decode, readAll_join (reads_parts ls vs h) hdata hlength]
    rfl

theorem reads_parts : ∀ (ls : List Layout) (vs : List Value), AllFit ls vs →
    Reads data (readers data ls) (parts ls vs) vs
  | [], [], _ => .nil
  | l :: ls, v :: vs, h =>
    .cons rfl (fun hd => length_encode h.1 hd) (decode_encode l v h.1) (reads_parts ls vs h.2)

end

end RoundTrip

end AbiLayout
