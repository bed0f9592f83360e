import ReedCode.Lib.Runs
import Mathlib.Data.List.Induction

/-!
# Streams of self-delimiting rows

A row reader looks at the front of a byte string and returns a row with the number of bytes
it takes.  `rowsFrom` reads rows until the input is used up.  A lawful reader (`LawfulReader`)
takes at least one byte, no more than there are, and decides on the bytes it takes alone.

* `BigEndian` — fixed-width numbers, with their round trip;
* `rowsFrom_flatten`, `rows_flatMap` — rows are read back from the concatenation of their
  pieces;
* `rowsFrom_pieces`, `rows_accounted` — whatever is accepted is such a concatenation, and every
  item belongs to one row;
* `rowsFrom_take`, `rows_take` — an accepted input that is cut inside a row is rejected.
-/

set_option autoImplicit false

universe u v

/-! ## Big-endian numbers -/

namespace BigEndian

/-- The last `width` base-256 digits, most significant first. -/
def encode : Nat → Nat → List UInt8
  | 0, _ => []
  | width + 1, n => encode width (n / 256) ++ [UInt8.ofNat (n % 256)]

def decode (bytes : List UInt8) : Nat := bytes.foldl (fun acc b => acc * 256 + b.toNat) 0

@[simp] theorem length_encode : ∀ (width n : Nat), (encode width n).length = width
  | 0, _ => rfl
  | width + 1, n => by simp [encode, length_encode width]

theorem decode_encode : ∀ {width n : Nat}, n < 256 ^ width → decode (encode width n) = n
  | 0, n, h => by
    rw [Nat.pow_zero] at h
    rw [Nat.lt_one_iff.1 h]
    rfl
  | width + 1, n, h => by
    have hdiv : n / 256 < 256 ^ width := Nat.div_lt_of_lt_mul (by rwa [Nat.mul_comm, ← Nat.pow_succ])
    have ih := decode_encode hdiv
    have hmod : (UInt8.ofNat (n % 256)).toNat = n % 256 :=
      UInt8.toNat_ofNat_of_lt' (Nat.mod_lt _ (by decide))
    rw [decode] at ih
    rw [decode, encode, List.foldl_append, ih, List.foldl_cons, List.foldl_nil, hmod]
    omega

theorem decode_concat (xs : List UInt8) (b : UInt8) :
    decode (xs ++ [b]) = decode xs * 256 + b.toNat := by
  simp [decode]

theorem decode_append (xs ys : List UInt8) :
    decode (xs ++ ys) = decode xs * 256 ^ ys.length + decode ys := by
  induction ys using List.reverseRecOn with
  | nil => simp [decode]
  | append_singleton ys b ih =>
    rw [← List.append_assoc, decode_concat, ih, decode_concat, List.length_append,
      List.length_singleton, Nat.pow_succ, Nat.add_mul, Nat.mul_assoc, Nat.add_assoc]

theorem decode_replicate : ∀ width : Nat, decode (List.replicate width 0) = 0
  | 0 => rfl
  | width + 1 => by
    rw [List.replicate_succ', decode_concat, decode_replicate width]
    rfl

/-- Only zeros encode zero. -/
theorem decode_eq_zero {xs : List UInt8} (h : decode xs = 0) : xs = List.replicate xs.length 0 := by
  induction xs using List.reverseRecOn with
  | nil => rfl
  | append_singleton xs b ih =>
    rw [decode_concat] at h
    have hb : b = 0 := UInt8.toNat_inj.1 (by rw [show (0 : UInt8).toNat = 0 from rfl]; omega)
    rw [List.length_append, List.length_singleton, List.replicate_succ', ← ih (by omega), hb]

/-- Numbers of one width are told apart by their digits. -/
theorem decode_inj {xs ys : List UInt8} (hlen : xs.length = ys.length) (h : decode xs = decode ys) :
    xs = ys := by
  induction xs using List.reverseRecOn generalizing ys with
  | nil => exact (List.eq_nil_of_length_eq_zero hlen.symm).symm
  | append_singleton xs b ih =>
    cases ys using List.reverseRecOn with
    | nil => simp at hlen
    | append_singleton ys c =>
      rw [List.length_append, List.length_append] at hlen
      rw [decode_concat, decode_concat] at h
      have hb : b.toNat < 256 := b.toNat_lt
      have hc : c.toNat < 256 := c.toNat_lt
      rw [ih (Nat.add_right_cancel hlen) (by omega), UInt8.toNat_inj.1 (by omega : b.toNat = c.toNat)]

end BigEndian

namespace Framing

variable {β : Type u} {ε ρ : Type v}

/-- `n` items from position `i` on. -/
def slice (data : List β) (i n : Nat) : List β := (data.drop i).take n

theorem length_slice {data : List β} {i n : Nat} (h : i + n ≤ data.length) :
    (slice data i n).length = n := by
  rw [slice, List.length_take, List.length_drop]
  omega

/-- A slice within the first `n` items does not depend on what follows them. -/
theorem slice_take_append {data rest : List β} {i k n : Nat} (hn : n ≤ data.length)
    (h : i + k ≤ n) : slice (data.take n ++ rest) i k = slice data i k := by
  have hlen : (data.take n).length = n := by rw [List.length_take, Nat.min_eq_left hn]
  rw [slice, slice, List.drop_append_of_le_length (by omega),
    List.take_append_of_le_length (by rw [List.length_drop]; omega), List.drop_take, List.take_take]
  congr 1
  omega

/-- Reading a field off the front of a concatenation. -/
theorem slice_append_left {xs ys : List β} {n : Nat} (h : xs.length = n) :
    slice (xs ++ ys) 0 n = xs := by
  rw [slice, List.drop_zero, List.take_left' h]

/-- Skipping a field. -/
theorem slice_append_right {xs ys : List β} {i k : Nat} (h : xs.length ≤ i) :
    slice (xs ++ ys) i k = slice ys (i - xs.length) k := by
  rw [slice, slice, List.drop_append, List.drop_eq_nil_of_le h, List.nil_append]

/-! ## Readers -/

/-- The front row of the data at an offset, and how much of it the row takes. -/
abbrev Reader (β : Type u) (ε ρ : Type v) := Nat → List β → Except ε (ρ × Nat)

structure LawfulReader (read : Reader β ε ρ) : Prop where
  consumes : ∀ {offset data row n}, read offset data = .ok (row, n) → 0 < n ∧ n ≤ data.length
  determined : ∀ {offset data row n}, read offset data = .ok (row, n) →
    ∀ rest, read offset (data.take n ++ rest) = .ok (row, n)

/-- Rows until the data is used up; every row takes at least one item. -/
def rowsFrom (read : Reader β ε ρ) : Nat → Nat → List β → Except ε (List ρ)
  | _, _, [] => .ok []
  | 0, _, _ :: _ => .ok []
  | fuel + 1, offset, b :: bs => do
    let front ← read offset (b :: bs)
    let rows ← rowsFrom read fuel (offset + front.2) ((b :: bs).drop front.2)
    return front.1 :: rows

/-- All rows of the data. -/
def rows (read : Reader β ε ρ) (data : List β) : Except ε (List ρ) :=
  rowsFrom read data.length 0 data

variable {read : Reader β ε ρ}

theorem rowsFrom_cons_eq_ok {fuel offset : Nat} {data : List β} {out : List ρ} (hne : data ≠ []) :
    rowsFrom read (fuel + 1) offset data = .ok out ↔
      ∃ row n rest, read offset data = .ok (row, n) ∧
        rowsFrom read fuel (offset + n) (data.drop n) = .ok rest ∧ out = row :: rest := by
  cases data with
  | nil => exact absurd rfl hne
  | cons b bs =>
    simp only [rowsFrom, Except.bind_eq_ok_iff, pure, Except.pure, Except.ok.injEq, Prod.exists]
    constructor
    · rintro ⟨row, n, hread, rest, hrest, rfl⟩
      exact ⟨row, n, rest, hread, hrest, rfl⟩
    · rintro ⟨row, n, rest, hread, hrest, rfl⟩
      exact ⟨row, n, hread, rest, hrest, rfl⟩

/-- The pieces of a concatenation, each read as one row at its offset. -/
inductive Pieces (read : Reader β ε ρ) : Nat → List (List β) → List ρ → Prop
  | nil (offset : Nat) : Pieces read offset [] []
  | cons {offset : Nat} {piece : List β} {row : ρ} {pieces : List (List β)} {rows : List ρ}
      (hread : read offset piece = .ok (row, piece.length))
      (hrest : Pieces read (offset + piece.length) pieces rows) :
      Pieces read offset (piece :: pieces) (row :: rows)

/-- **Rows are read back from the concatenation of their pieces.** -/
theorem rowsFrom_flatten (hl : LawfulReader read) {offset : Nat} {pieces : List (List β)}
    {out : List ρ} (h : Pieces read offset pieces out) :
    ∀ {fuel : Nat}, pieces.flatten.length ≤ fuel →
      rowsFrom read fuel offset pieces.flatten = .ok out := by
  induction h with
  | nil offset => intro fuel _; cases fuel <;> rfl
  | @cons offset piece row pieces rows hread _ ih =>
    intro fuel hfuel
    obtain ⟨hpos, -⟩ := hl.consumes hread
    rw [List.flatten_cons, List.length_append] at hfuel
    obtain ⟨fuel, rfl⟩ : ∃ f, fuel = f + 1 := ⟨fuel - 1, by omega⟩
    rw [List.flatten_cons, rowsFrom_cons_eq_ok]
    · refine ⟨row, piece.length, rows, ?_, ?_, rfl⟩
      · have := hl.determined hread pieces.flatten
        rwa [List.take_length] at this
      · rw [List.drop_left]
        exact ih (by omega)
    · intro hnil
      rw [List.append_eq_nil_iff] at hnil
      rw [hnil.1] at hpos
      exact absurd hpos (Nat.lt_irrefl 0)

/-- **Whatever is accepted is a concatenation of pieces, one for each row.** -/
theorem rowsFrom_pieces (hl : LawfulReader read) :
    ∀ {fuel offset : Nat} {data : List β} {out : List ρ}, data.length ≤ fuel →
      rowsFrom read fuel offset data = .ok out →
      ∃ pieces, data = pieces.flatten ∧ Pieces read offset pieces out
  | fuel, offset, [], out, _, h => by
    have : out = [] := by cases fuel <;> (cases h; rfl)
    exact ⟨[], rfl, this ▸ .nil offset⟩
  | 0, offset, b :: bs, out, hfuel, _ => by simp at hfuel
  | fuel + 1, offset, b :: bs, out, hfuel, h => by
    obtain ⟨row, n, rest, hread, hrest, rfl⟩ := (rowsFrom_cons_eq_ok (by simp)).1 h
    obtain ⟨hpos, hle⟩ := hl.consumes hread
    obtain ⟨pieces, hdata, hpieces⟩ := rowsFrom_pieces hl
      (by rw [List.length_drop]; omega) hrest
    have hlen : ((b :: bs).take n).length = n := by rw [List.length_take, Nat.min_eq_left hle]
    have hfront := hl.determined hread []
    rw [List.append_nil] at hfront
    refine ⟨(b :: bs).take n :: pieces, ?_, .cons ?_ ?_⟩
    · rw [List.flatten_cons, ← hdata, List.take_append_drop]
    · rw [hlen]; exact hfront
    · rw [hlen]; exact hpieces

/-! ## Cutting -/

/-- Where pieces that start at `offset` begin and end. -/
def boundaries : Nat → List (List β) → List Nat
  | offset, [] => [offset]
  | offset, piece :: pieces => offset :: boundaries (offset + piece.length) pieces

/-- A row that is cut short is rejected: if its front were a row, so it would be of the data. -/
theorem LawfulReader.truncated (hl : LawfulReader read) {offset n k : Nat} {data : List β}
    {row : ρ} (h : read offset data = .ok (row, n)) (hk : k < n) :
    ∃ e, read offset (data.take k) = .error e := by
  cases hr : read offset (data.take k) with
  | error e => exact ⟨e, rfl⟩
  | ok r =>
    obtain ⟨row', n'⟩ := r
    obtain ⟨-, hle⟩ := hl.consumes hr
    rw [List.length_take] at hle
    have hext := hl.determined hr (data.drop n')
    rw [List.take_take, Nat.min_eq_left (by omega), List.take_append_drop, h] at hext
    cases hext
    omega

/-- **An accepted input that is cut inside a row is rejected.** -/
theorem rowsFrom_take (hl : LawfulReader read) {offset : Nat} {pieces : List (List β)}
    {out : List ρ} (h : Pieces read offset pieces out) :
    ∀ {fuel k : Nat}, k ≤ fuel → k ≤ pieces.flatten.length →
      offset + k ∉ boundaries offset pieces →
      ∃ e, rowsFrom read fuel offset (pieces.flatten.take k) = .error e := by
  induction h with
  | nil offset =>
    intro fuel k _ hk hcut
    rw [List.flatten_nil, List.length_nil] at hk
    exact absurd (by simp [boundaries]; omega) hcut
  | @cons offset piece row pieces rows hread hrest ih =>
    intro fuel k hfuel hk hcut
    rw [boundaries, List.mem_cons, not_or] at hcut
    obtain ⟨hcut₀, hcut⟩ := hcut
    rw [List.flatten_cons, List.length_append] at hk
    obtain ⟨fuel, rfl⟩ : ∃ f, fuel = f + 1 := ⟨fuel - 1, by omega⟩
    have hne : (piece ++ pieces.flatten).take k ≠ [] := by
      rw [← List.length_pos_iff, List.length_take, List.length_append]
      omega
    rw [List.flatten_cons]
    cases hr : rowsFrom read (fuel + 1) offset ((piece ++ pieces.flatten).take k) with
    | error e => exact ⟨e, rfl⟩
    | ok out' =>
      exfalso
      obtain ⟨row', n, rest, hread', hrest', -⟩ := (rowsFrom_cons_eq_ok hne).1 hr
      have hdata := hl.determined hread pieces.flatten
      rw [List.take_length] at hdata
      rcases Nat.lt_or_ge k piece.length with hlt | hge
      · obtain ⟨e, he⟩ := hl.truncated hdata hlt
        rw [he] at hread'
        cases hread'
      · -- the first row is whole, so the cut lies in a later one
        have htake : (piece ++ pieces.flatten).take k =
            piece ++ pieces.flatten.take (k - piece.length) := by
          rw [List.take_append, List.take_of_length_le hge]
        have hfront := hl.determined hread (pieces.flatten.take (k - piece.length))
        rw [List.take_length] at hfront
        rw [htake, hfront] at hread'
        cases hread'
        rw [htake, List.drop_left] at hrest'
        obtain ⟨hpos, -⟩ := hl.consumes hread
        obtain ⟨e, he⟩ := @ih fuel (k - piece.length) (by omega) (by omega) (by
          rwa [Nat.add_assoc, Nat.add_sub_cancel' hge])
        rw [he] at hrest'
        cases hrest'

/-! ## Rows that know where they start -/

/-- The rows of encoded values, laid out from an offset on. -/
def layout {α : Type v} (encode : α → List β) (row : Nat → α → ρ) : Nat → List α → List ρ
  | _, [] => []
  | offset, x :: xs => row offset x :: layout encode row (offset + (encode x).length) xs

theorem pieces_layout {α : Type v} {encode : α → List β} {row : Nat → α → ρ} :
    ∀ {xs : List α} {offset : Nat},
      (∀ x ∈ xs, ∀ offset, read offset (encode x) = .ok (row offset x, (encode x).length)) →
      Pieces read offset (xs.map encode) (layout encode row offset xs)
  | [], offset, _ => .nil offset
  | x :: _, offset, h =>
    .cons (h x List.mem_cons_self offset) (pieces_layout fun y hy => h y (List.mem_cons_of_mem _ hy))

/-- **Encoded values are read back.** -/
theorem rows_flatMap (hl : LawfulReader read) {α : Type v} {encode : α → List β}
    {row : Nat → α → ρ} {xs : List α}
    (h : ∀ x ∈ xs, ∀ offset, read offset (encode x) = .ok (row offset x, (encode x).length)) :
    rows read (xs.flatMap encode) = .ok (layout encode row 0 xs) := by
  rw [rows, List.flatMap_def]
  exact rowsFrom_flatten hl (pieces_layout h) (Nat.le_refl _)

variable {start : ρ → Nat}

theorem boundaries_eq (hstart : ∀ {offset data row n}, read offset data = .ok (row, n) →
    start row = offset) {offset : Nat} {pieces : List (List β)} {out : List ρ}
    (h : Pieces read offset pieces out) :
    boundaries offset pieces = out.map start ++ [offset + pieces.flatten.length] := by
  induction h with
  | nil offset => rfl
  | cons hread _ ih =>
    rw [boundaries, ih, List.map_cons, List.cons_append, hstart hread, List.flatten_cons,
      List.length_append, Nat.add_assoc]

/-- Every item of the data belongs to exactly one row: the data is the concatenation of one
piece for each row, each row is read from its piece, and starts where the piece does. -/
def Accounted (read : Reader β ε ρ) (start : ρ → Nat) (data : List β) (out : List ρ) : Prop :=
  ∃ pieces, data = pieces.flatten ∧ Pieces read 0 pieces out ∧
    ∀ i < data.length, ∃! j : Nat, ∃ (row : ρ) (piece : List β), out[j]? = some row ∧ pieces[j]? = some piece ∧
      start row ≤ i ∧ i < start row + piece.length

theorem Pieces.exists_unique (hstart : ∀ {offset data row n}, read offset data = .ok (row, n) →
    start row = offset) {offset : Nat} {pieces : List (List β)} {out : List ρ}
    (h : Pieces read offset pieces out) :
    ∀ i, offset ≤ i → i < offset + pieces.flatten.length →
      ∃! j : Nat, ∃ (row : ρ) (piece : List β), out[j]? = some row ∧ pieces[j]? = some piece ∧
        start row ≤ i ∧ i < start row + piece.length := by
  induction h with
  | nil offset =>
    intro i h₁ h₂
    rw [List.flatten_nil, List.length_nil] at h₂
    omega
  | @cons offset piece row pieces rows hread hrest ih =>
    intro i h₁ h₂
    have hrow := hstart hread
    have hlater : ∀ (j : Nat) (r : ρ), rows[j]? = some r → offset + piece.length ≤ start r := by
      clear ih h₂
      intro j r hr
      have hmem : start r ∈ boundaries (offset + piece.length) pieces := by
        rw [boundaries_eq hstart hrest]
        exact List.mem_append_left _ (List.mem_map_of_mem (List.mem_of_getElem? hr))
      generalize offset + piece.length = o at hmem
      clear hrest
      induction pieces generalizing o with
      | nil => simp only [boundaries, List.mem_singleton] at hmem; omega
      | cons p ps ihp =>
        rcases List.mem_cons.1 hmem with h | h
        · omega
        · have := ihp _ h
          omega
    rcases Nat.lt_or_ge i (offset + piece.length) with hlt | hge
    · refine ⟨0, ⟨row, piece, rfl, rfl, by omega, by omega⟩, ?_⟩
      rintro j ⟨r, p, hr, -, hle, -⟩
      cases j with
      | zero => rfl
      | succ j =>
        have := hlater j r hr
        omega
    · rw [List.flatten_cons, List.length_append] at h₂
      obtain ⟨j, ⟨r, p, hr, hp, hle, hltp⟩, huniq⟩ := ih i hge (by omega)
      refine ⟨j + 1, ⟨r, p, hr, hp, hle, hltp⟩, ?_⟩
      rintro j' ⟨r', p', hr', hp', hle', hlt'⟩
      cases j' with
      | zero =>
        rw [List.getElem?_cons_zero, Option.some.injEq] at hr' hp'
        subst hr' hp'
        omega
      | succ j' => exact congrArg (· + 1) (huniq j' ⟨r', p', hr', hp', hle', hlt'⟩)

/-- The piece of a row. -/
theorem Pieces.getElem? {offset : Nat} {pieces : List (List β)} {out : List ρ}
    (h : Pieces read offset pieces out) : ∀ {j : Nat} {row : ρ}, out[j]? = some row →
      ∃ piece o, pieces[j]? = some piece ∧ read o piece = .ok (row, piece.length) := by
  induction h with
  | nil => intro j row hrow; simp at hrow
  | @cons offset piece row pieces rows hread _ ih =>
    intro j r hr
    cases j with
    | zero =>
      rw [List.getElem?_cons_zero, Option.some.injEq] at hr
      exact ⟨piece, offset, rfl, hr ▸ hread⟩
    | succ j => exact ih hr

theorem rows_accounted (hl : LawfulReader read)
    (hstart : ∀ {offset data row n}, read offset data = .ok (row, n) → start row = offset)
    {data : List β} {out : List ρ} (h : rows read data = .ok out) :
    Accounted read start data out := by
  obtain ⟨pieces, hdata, hpieces⟩ := rowsFrom_pieces hl (Nat.le_refl _) h
  refine ⟨pieces, hdata, hpieces, fun i hi => ?_⟩
  exact hpieces.exists_unique hstart i (Nat.zero_le i) (by rw [Nat.zero_add, ← hdata]; exact hi)

/-- The first row of the data and the rows behind it. -/
theorem rows_cons_eq_ok {data : List β} {out : List ρ} (hne : data ≠ []) :
    rows read data = .ok out ↔ ∃ row n rest, read 0 data = .ok (row, n) ∧
      rowsFrom read (data.length - 1) n (data.drop n) = .ok rest ∧ out = row :: rest := by
  obtain ⟨fuel, hfuel⟩ : ∃ fuel, data.length = fuel + 1 :=
    Nat.exists_eq_succ_of_ne_zero fun h0 => hne (List.eq_nil_of_length_eq_zero h0)
  rw [rows, hfuel, rowsFrom_cons_eq_ok hne, Nat.add_sub_cancel]
  simp only [Nat.zero_add]

/-- A row that is rejected in front rejects the data. -/
theorem rows_front {data : List β} {out : List ρ} (hne : data ≠ [])
    (h : rows read data = .ok out) : ∃ row n, read 0 data = .ok (row, n) := by
  obtain ⟨row, n, -, hread, -⟩ := (rows_cons_eq_ok hne).1 h
  exact ⟨row, n, hread⟩

theorem rows_take (hl : LawfulReader read)
    (hstart : ∀ {offset data row n}, read offset data = .ok (row, n) → start row = offset)
    {data : List β} {out : List ρ} (h : rows read data = .ok out) {k : Nat}
    (hk : k < data.length) (hcut : ∀ row ∈ out, start row ≠ k) :
    ∃ e, rows read (data.take k) = .error e := by
  obtain ⟨pieces, rfl, hpieces⟩ := rowsFrom_pieces hl (Nat.le_refl _) h
  have hlen : (pieces.flatten.take k).length = k := by rw [List.length_take, Nat.min_eq_left (Nat.le_of_lt hk)]
  rw [rows, hlen]
  refine rowsFrom_take hl hpieces (Nat.le_refl k) (Nat.le_of_lt hk) ?_
  rw [boundaries_eq hstart hpieces, List.mem_append, List.mem_map, List.mem_singleton, not_or]
  refine ⟨?_, by omega⟩
  rintro ⟨row, hrow, hs⟩
  exact hcut row hrow (by omega)

end Framing
