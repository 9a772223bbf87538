import TablesOS.Proofs.Inflating
import TablesOS.Png.Decode
import TablesOS.Spec.Png

/-!
# Decoding a picture file

The three loops of the decoder over what a file of a picture has in it. The
chunk loop ends with the picture's header, its palette and the whole zlib
stream. The filter loop has always the samples before the one at hand in `img`,
so what each filter took away is what the decoder adds. The pixel loop writes
the pixels one after the other.
-/

namespace TablesOS.Png

open Deflate (bitsOf)

theorem usize_ok {n : Nat} (h : n < 2 ^ 64) : usize n = .ok n := if_pos h

/-! ## Filters -/

theorem toNat_nearer {target : Int} {best v : Byte} :
    ((nearer target best v).toNat : Int) =
      if (target - v.toNat).natAbs < (target - best.toNat).natAbs then (v.toNat : Int)
      else best.toNat := by
  rw [nearer]
  split <;> rfl

/-- The decoder's predictor is the first of the nearest. -/
theorem paeth_eq (a b c : Byte) :
    paeth a.toNat b.toNat c.toNat = ((Filter.paeth.predict a b c).toNat : Int) := by
  rw [Filter.predict, toNat_nearer, toNat_nearer, paeth]
  generalize (a.toNat : Int) = x
  generalize (b.toNat : Int) = y
  generalize (c.toNat : Int) = z
  split_ifs <;> omega

/-- What a filter takes away, the decoder adds. -/
theorem unfiltered_predict (f : Filter) (v a b c : Byte) :
    ∃ w : Int, unfiltered f.code (v - f.predict a b c).toNat a.toNat b.toNat c.toNat = .ok w ∧
      UInt8.ofNat (w % 256).toNat = v := by
  have hsum : ∀ q : Byte, UInt8.ofNat (((v - q).toNat + q.toNat : Nat) % 256 : Int).toNat = v := by
    intro q
    have h1 : (((v - q).toNat + q.toNat : Nat) % 256 : Int).toNat =
        ((v - q).toNat + q.toNat) % 256 := by omega
    rw [h1, UInt8.ofNat_mod_size, UInt8.ofNat_add, UInt8.ofNat_toNat, UInt8.ofNat_toNat,
      UInt8.sub_add_cancel]
  have hq := hsum (f.predict a b c)
  cases f with
  | none => exact ⟨_, rfl, hq⟩
  | sub => exact ⟨_, rfl, hq⟩
  | up => exact ⟨_, rfl, hq⟩
  | average =>
      refine ⟨_, rfl, ?_⟩
      have hlt : (a.toNat + b.toNat) / 2 < 256 := by
        have := a.toNat_lt
        have := b.toNat_lt
        omega
      have h2 : (Filter.average.predict a b c).toNat = (a.toNat + b.toNat) / 2 := by
        rw [Filter.predict, UInt8.toNat_ofNat', Nat.mod_eq_of_lt hlt]
      rw [h2] at hq
      exact hq
  | paeth =>
      refine ⟨_, rfl, ?_⟩
      rw [paeth_eq]
      exact hq

namespace Picture

variable {p : Picture}

/-- The samples before `k`, in a buffer of full size. -/
def done (p : Picture) (k : Nat) : List Byte := padded 0 p.data.length (p.data.take k)

theorem done_zero (p : Picture) : p.done 0 = List.replicate p.data.length 0 := by
  rw [done, List.take_zero, padded, List.nil_append, List.length_nil, Nat.sub_zero]

theorem done_all {k : Nat} (h : p.data.length ≤ k) : p.done k = p.data := by
  rw [done, List.take_of_length_le h, padded_full rfl]

theorem sample_eq {i : Nat} (h : i < p.data.length) : p.sample i = p.data[i] := by
  rw [sample, List.getD_eq_getElem?_getD, List.getElem?_eq_getElem h, Option.getD_some]

theorem at_done {i k : Nat} (h : i < k) (hk : k ≤ p.data.length) :
    at! (p.done k) i = .ok (p.sample i) := by
  rw [done, at_padded (by rw [List.length_take]; omega), List.getElem_take, sample_eq (by omega)]

theorem set_done {k : Nat} (h : k < p.data.length) :
    set! (p.done k) k (p.sample k) = .ok (p.done (k + 1)) := by
  have hlen : (p.data.take k).length = k := by
    rw [List.length_take]
    omega
  have hset := set_padded (z := (0 : Byte)) (v := p.sample k) (hlen.symm ▸ h)
  rw [hlen] at hset
  rw [done, hset, done, List.take_add_one, List.getElem?_eq_getElem h, sample_eq h]
  rfl

/-- A sample before the one at hand, where there is one. -/
theorem pixelIf_done (c : Prop) [Decidable c] (y x back : Nat) {k : Nat}
    (hk : k ≤ p.data.length) (hmax : p.data.length < 2 ^ 63)
    (h : c → y * p.stride + x - back < k ∧ y * p.stride + x ≤ k) :
    pixelIf c (p.done k) p.stride y x back =
      .ok (if c then p.sample (y * p.stride + x - back) else 0) := by
  rw [pixelIf]
  split
  · rename_i hc
    have := h hc
    rw [pixelAt, usize_ok (by omega), Outcome.ok_bind, usize_ok (by omega), Outcome.ok_bind,
      at_done (by omega) hk]
  · rfl

theorem one_le_samples (c : Colour) : 1 ≤ c.samples := by
  cases c <;> simp [Colour.samples]

/-- One scanline. -/
theorem unfilterRow_done (hv : p.Valid) (hmax : p.data.length < 2 ^ 63) (f : Filter) {y n x : Nat}
    (hy : y < p.height) (hx : x + n = p.stride) :
    unfilterRow p.colour.samples p.stride y f.code ((List.range p.stride).map (p.filtered f y)) n x
      (p.done (y * p.stride + x)) = .ok (p.done (y * p.stride + p.stride)) := by
  have hbpp := one_le_samples p.colour
  have hrow : y * p.stride + p.stride ≤ p.data.length := by
    rw [hv.data, ← Nat.succ_mul]
    exact Nat.mul_le_mul_right _ hy
  induction n generalizing x with
  | zero => rw [unfilterRow, show x = p.stride by omega]
  | succ n ih =>
      have hup : 0 < y → (y - 1) * p.stride + p.stride = y * p.stride := by
        intro h0
        rw [← Nat.succ_mul, Nat.succ_eq_add_one, Nat.sub_add_cancel h0]
      have hk : y * p.stride + x ≤ p.data.length := by omega
      have ha := pixelIf_done (p.colour.samples ≤ x) y x p.colour.samples hk hmax (by omega)
      have hb := pixelIf_done (0 < y) (y - 1) x 0 hk hmax (by omega)
      have hc := pixelIf_done (0 < y ∧ p.colour.samples ≤ x) (y - 1) x p.colour.samples hk hmax
        (by omega)
      rw [Nat.sub_zero] at hb
      obtain ⟨w, hw, hval⟩ := unfiltered_predict f (p.sample (y * p.stride + x))
        (if p.colour.samples ≤ x then p.sample (y * p.stride + x - p.colour.samples) else 0)
        (if 0 < y then p.sample ((y - 1) * p.stride + x) else 0)
        (if 0 < y ∧ p.colour.samples ≤ x then
          p.sample ((y - 1) * p.stride + x - p.colour.samples) else 0)
      have hrb : at! ((List.range p.stride).map (p.filtered f y)) x = .ok (p.filtered f y x) := by
        rw [at_ok (by simp; omega)]
        simp
      rw [unfilterRow, hrb, Outcome.ok_bind, ha, Outcome.ok_bind, hb, Outcome.ok_bind, hc,
        Outcome.ok_bind, filtered, hw, Outcome.ok_bind, usize_ok (by omega), Outcome.ok_bind,
        usize_ok (by omega), Outcome.ok_bind, hval, set_done (by omega), Outcome.ok_bind]
      exact ih (by omega)

end Picture

/-- The parts of equal length after the first `k`. -/
theorem drop_parts {f : Nat → List Byte} {len : Nat} (hf : ∀ i, (f i).length = len) {s n k : Nat}
    (hk : k ≤ n) :
    ((List.range' s n).flatMap f).drop (k * len) = (List.range' (s + k) (n - k)).flatMap f := by
  induction k generalizing s n with
  | zero => rw [Nat.zero_mul, List.drop_zero, Nat.add_zero, Nat.sub_zero]
  | succ k ih =>
      obtain ⟨m, rfl⟩ := Nat.exists_eq_succ_of_ne_zero (by omega : n ≠ 0)
      rw [List.range'_succ, List.flatMap_cons, Nat.succ_mul, Nat.add_comm, ← List.drop_drop,
        List.drop_left' (hf s), ih (by omega), Nat.succ_sub_succ, Nat.add_assoc, Nat.add_comm 1 k]

namespace Picture

variable {p : Picture}

@[simp] theorem length_scanline (f : Filter) (y : Nat) :
    (p.scanline f y).length = p.stride + 1 := by
  simp [scanline]

theorem length_scanlines (filters : Nat → Filter) :
    (p.scanlines filters).length = (p.stride + 1) * p.height := by
  rw [scanlines, List.length_flatMap]
  simp [Nat.mul_comm]

/-- All scanlines. -/
theorem unfilter_done (hv : p.Valid) (hfit : p.Fits) (filters : Nat → Filter) {n y : Nat}
    (hy : y + n = p.height) :
    unfilter (p.scanlines filters) p.colour.samples p.stride n y (p.done (y * p.stride)) =
      .ok p.data := by
  have hraw := hfit.1
  have hmul : (p.stride + 1) * p.height = p.height * p.stride + p.height := by
    rw [Nat.add_mul, Nat.one_mul, Nat.mul_comm]
  have hdata := hv.data
  induction n generalizing y with
  | zero => rw [unfilter, done_all (by rw [hdata, show y = p.height by omega])]
  | succ n ih =>
      have hle : (y + 1) * (p.stride + 1) ≤ p.height * (p.stride + 1) :=
        Nat.mul_le_mul_right _ (by omega)
      rw [Nat.succ_mul, Nat.mul_comm p.height] at hle
      have hdrop : (p.scanlines filters).drop (y * (p.stride + 1)) =
          p.scanline (filters y) y ++
            (List.range' (y + 1) n).flatMap fun y => p.scanline (filters y) y := by
        rw [scanlines, List.range_eq_range', drop_parts (fun y => length_scanline _ y) (by omega),
          Nat.zero_add, show p.height - y = n + 1 by omega, List.range'_succ, List.flatMap_cons]
      have hlen := length_scanlines (p := p) filters
      have hcode : at! (p.scanlines filters) (y * (p.stride + 1)) = .ok (filters y).code :=
        at_drop (i := 0) hdrop
      have hrow : range! (p.scanlines filters) (y * (p.stride + 1) + 1)
          (y * (p.stride + 1) + 1 + p.stride) =
          .ok ((List.range p.stride).map (p.filtered (filters y) y)) := by
        rw [range!, if_pos (by omega), ← List.drop_drop, hdrop, Nat.add_sub_cancel_left, scanline,
          List.cons_append, List.drop_one, List.tail_cons, List.take_left' (by simp)]
      have hstart := unfilterRow_done hv (by omega) (filters y) (show y < p.height by omega)
        (Nat.zero_add p.stride)
      rw [Nat.add_zero] at hstart
      rw [unfilter, usize_ok (by omega), Outcome.ok_bind, hcode, Outcome.ok_bind,
        usize_ok (by omega), Outcome.ok_bind, usize_ok (by omega), Outcome.ok_bind, hrow,
        Outcome.ok_bind, hstart, Outcome.ok_bind, ← Nat.succ_mul]
      exact ih (by omega)

end Picture

/-! ## Expansion -/

namespace Picture

variable {p : Picture}

theorem at_data {i : Nat} (h : i < p.data.length) : at! p.data i = .ok (p.sample i) := by
  rw [at_ok h, sample_eq h]

theorem sample_data {i k j : Nat} (h : i * k + j < p.data.length) (hmax : p.data.length < 2 ^ 63) :
    Png.sample p.data i k j = .ok (p.sample (i * k + j)) := by
  rw [Png.sample, usize_ok (by omega), Outcome.ok_bind, usize_ok (by omega), Outcome.ok_bind,
    at_data h]

/-- The palette and the alpha values that the chunk loop has to have found. -/
def Known (p : Picture) (palette : List (List Byte)) (trns : List Byte) : Prop :=
  ∀ entries alpha, p.colour = .palette entries alpha →
    palette = entries.map (fun e => [e.1, e.2.1, e.2.2]) ∧ trns = alpha

theorem expandPixel_ok {palette : List (List Byte)} {trns : List Byte} (hk : p.Known palette trns)
    (hmax : p.data.length < 2 ^ 63) {i : Nat}
    (hi : i * p.colour.samples + p.colour.samples ≤ p.data.length) :
    expandPixel p.colour.code palette trns p.data i =
      .ok (p.colour.pixel fun j => p.sample (i * p.colour.samples + j)) := by
  rcases hc : p.colour with _ | _ | ⟨entries, alpha⟩ | _ | _ <;> rw [hc] at hi
  · rw [Colour.samples] at hi ⊢
    rw [Nat.mul_one] at hi ⊢
    rw [expandPixel, Colour.code, if_pos rfl, at_data (by omega)]
    rfl
  · rw [Colour.samples] at hi ⊢
    rw [expandPixel, Colour.code, if_neg (by decide), if_pos rfl, sample_data (by omega) hmax,
      sample_data (by omega) hmax, sample_data (by omega) hmax]
    rfl
  · obtain ⟨rfl, rfl⟩ := hk entries alpha hc
    rw [Colour.samples] at hi ⊢
    rw [Nat.mul_one] at hi ⊢
    have hp : ∀ n, ((entries.map fun e => [e.1, e.2.1, e.2.2])[n]?).getD [0, 0, 0] =
        [(entries.getD n (0, 0, 0)).1, (entries.getD n (0, 0, 0)).2.1,
          (entries.getD n (0, 0, 0)).2.2] := by
      intro n
      rw [List.getElem?_map, List.getD_eq_getElem?_getD]
      cases entries[n]? <;> rfl
    rw [expandPixel, Colour.code, if_neg (by decide), if_neg (by decide), if_pos rfl,
      at_data (by omega)]
    simp only [Outcome.ok_bind, hp]
    rw [← List.getD_eq_getElem?_getD]
    rfl
  · rw [Colour.samples] at hi ⊢
    rw [expandPixel, Colour.code, if_neg (by decide), if_neg (by decide),
      if_neg (by decide), if_pos rfl, sample_data (by omega) hmax,
      sample_data (by omega) hmax]
    rfl
  · rw [Colour.samples] at hi ⊢
    rw [expandPixel, Colour.code, if_neg (by decide), if_neg (by decide),
      if_neg (by decide), if_neg (by decide), if_pos rfl,
      sample_data (by omega) hmax, sample_data (by omega) hmax, sample_data (by omega) hmax,
      sample_data (by omega) hmax]
    rfl

end Picture

theorem length_pixel (s : Nat → Byte) (c : Colour) : (c.pixel s).length = 4 := by cases c <;> rfl

/-- The stores of a pixel fill the vector further. -/
theorem putPixel_ok {i j total : Nat} {out vs : List Byte} (hout : out.length = i * 4 + j)
    (hle : out.length + vs.length ≤ total) (hmax : total < 2 ^ 63) :
    putPixel i vs j (padded 0 total out) = .ok (padded 0 total (out ++ vs)) := by
  induction vs generalizing j out with
  | nil => rw [putPixel, List.append_nil]
  | cons v vs ih =>
      rw [List.length_cons] at hle
      have hlen : (out ++ [v]).length = out.length + 1 := List.length_append
      rw [putPixel, usize_ok (by omega), Outcome.ok_bind, usize_ok (by omega), Outcome.ok_bind,
        ← hout, set_padded (by omega), Outcome.ok_bind, ih (by omega) (by omega), List.append_assoc]
      rfl

/-- All pixels. -/
theorem expand_ok {p : Picture} {palette : List (List Byte)} {trns : List Byte}
    (hk : p.Known palette trns) (hv : p.Valid) (hfit : p.Fits) {n i : Nat} {out : List Byte}
    (hi : i + n = p.width * p.height) (hout : out.length = i * 4) :
    expand p.colour.code palette trns p.data n i (padded 0 (p.width * p.height * 4) out) =
      .ok (out ++ (List.range' i n).flatMap fun i =>
        p.colour.pixel fun j => p.sample (i * p.colour.samples + j)) := by
  have h4 := hfit.2
  have hdata : p.data.length = p.width * p.height * p.colour.samples := by
    rw [hv.data, Picture.stride, ← Nat.mul_assoc, Nat.mul_comm p.height]
  have hraw : p.data.length < 2 ^ 63 := by
    have h1 := hfit.1
    rw [Nat.add_mul, Nat.one_mul, Nat.mul_comm, ← hv.data] at h1
    omega
  induction n generalizing i out with
  | zero => rw [expand, padded_full (by omega), List.range'_zero, List.flatMap_nil, List.append_nil]
  | succ n ih =>
      have hle : (i + 1) * p.colour.samples ≤ p.data.length := by
        rw [hdata]
        exact Nat.mul_le_mul_right _ (by omega)
      rw [Nat.succ_mul] at hle
      have hpx := length_pixel (fun j => p.sample (i * p.colour.samples + j)) p.colour
      rw [expand, Picture.expandPixel_ok hk hraw hle, Outcome.ok_bind,
        putPixel_ok (by omega) (by omega) h4, Outcome.ok_bind,
        ih (by omega) (by rw [List.length_append]; omega), List.range'_succ, List.flatMap_cons,
        List.append_assoc]

/-! ## Chunks -/

theorem be32_beBytes {n : Nat} (h : n < 2 ^ 32) : be32 (beBytes n) = .ok n := by
  rw [beBytes, be32]
  simp only [at!, List.getElem?_cons_zero, List.getElem?_cons_succ, Outcome.unwrap_some,
    Outcome.ok_bind, UInt8.toNat_ofNat']
  congr 1
  omega

/-- A part of a byte string. -/
theorem range_drop {v w rest : List Byte} {a b : Nat} (h : v.drop a = w ++ rest)
    (hb : b = a + w.length) (ha : a ≤ v.length) : range! v a b = .ok w := by
  have hlen := congrArg List.length h
  rw [List.length_drop, List.length_append] at hlen
  rw [range!, if_pos (by omega), h, hb, Nat.add_sub_cancel_left, List.take_left']
  rfl

/-- A chunk at `pos` goes to `match ctype`. -/
theorem walk_chunk {bytes rest : List Byte} (hmax : bytes.length < 2 ^ 63) {c : Chunk}
    (hc : c.Fits) {pos : Nat} (hpos : pos ≤ bytes.length) (h : bytes.drop pos = c.bytes ++ rest)
    (fuel : Nat) (s : Chunks) :
    walk bytes (fuel + 1) pos s = (chunk s c.ctype c.data.length c.data >>= fun r =>
      if r.2 then .ok r.1 else walk bytes fuel (pos + c.bytes.length) r.1) := by
  have hlen := congrArg List.length h
  have h4 : (beBytes c.data.length).length = 4 := rfl
  have hclen : c.bytes.length = c.data.length + 12 := by
    rw [Chunk.bytes]
    simp only [List.length_append, hc.ctype, hc.crc, h4]
    omega
  have hc32 := hc.data
  rw [List.length_drop, List.length_append] at hlen
  rw [Chunk.bytes, List.append_assoc] at h
  have hd4 : bytes.drop (pos + 4) = c.ctype ++ (c.data ++ c.crc ++ rest) := by
    rw [← List.drop_drop, h, List.drop_left' h4, List.append_assoc]
  have hd8 : bytes.drop (pos + 8) = c.data ++ (c.crc ++ rest) := by
    rw [show pos + 8 = pos + 4 + 4 from rfl, ← List.drop_drop, hd4, List.drop_left' hc.ctype,
      List.append_assoc]
  have hr1 : range! bytes pos (pos + 4) = .ok (beBytes c.data.length) :=
    range_drop h rfl hpos
  have hr2 : range! bytes (pos + 4) (pos + 8) = .ok c.ctype :=
    range_drop hd4 (by rw [hc.ctype]) (by omega)
  have hr3 : range! bytes (pos + 8) (pos + 8 + c.data.length) = .ok c.data :=
    range_drop hd8 rfl (by omega)
  rw [walk, usize_ok (by omega), Outcome.ok_bind, if_neg (by omega), hr1, Outcome.ok_bind,
    be32_beBytes hc32, Outcome.ok_bind, hr2, Outcome.ok_bind, usize_ok (by omega),
    Outcome.ok_bind, if_neg (by omega), hr3, Outcome.ok_bind]
  rw [show pos + 8 + c.data.length + 4 = pos + c.bytes.length by omega]

/-- What a chunk between the first and the last adds. -/
def Chunks.add (s : Chunks) (c : Chunk) : Chunks :=
  if c.ctype = tPLTE then { s with palette := triples c.data }
  else if c.ctype = tTRNS then { s with trns := c.data }
  else if c.ctype = tIDAT then { s with idat := s.idat ++ c.data }
  else s

theorem chunk_add {s : Chunks} {c : Chunk} (h : c.ctype ≠ tIHDR ∧ c.ctype ≠ tIEND) :
    chunk s c.ctype c.data.length c.data = .ok (s.add c, false) := by
  rw [chunk, if_neg h.1, Chunks.add]
  split
  · rfl
  split
  · rfl
  split
  · rfl
  · rw [if_neg h.2]

/-- The chunks between, one by one. -/
theorem walk_body {bytes rest : List Byte} (hmax : bytes.length < 2 ^ 63) {body : List Chunk}
    (hfits : ∀ c ∈ body, c.Fits) (hin : ∀ c ∈ body, c.ctype ≠ tIHDR ∧ c.ctype ≠ tIEND) {pos : Nat}
    (hpos : pos ≤ bytes.length) (h : bytes.drop pos = body.flatMap Chunk.bytes ++ rest) (fuel : Nat)
    (s : Chunks) :
    walk bytes (body.length + fuel) pos s =
      walk bytes fuel (pos + (body.flatMap Chunk.bytes).length) (body.foldl Chunks.add s) := by
  induction body generalizing pos s with
  | nil => rw [List.length_nil, Nat.zero_add, List.flatMap_nil, List.length_nil, Nat.add_zero]; rfl
  | cons c cs ih =>
      rw [List.flatMap_cons, List.append_assoc] at h
      have hlen := congrArg List.length h
      rw [List.length_drop, List.length_append] at hlen
      have hdrop : bytes.drop (pos + c.bytes.length) = cs.flatMap Chunk.bytes ++ rest := by
        rw [← List.drop_drop, h, List.drop_left]
      rw [List.length_cons, Nat.add_right_comm, walk_chunk hmax (hfits c List.mem_cons_self) hpos h,
        chunk_add (hin c List.mem_cons_self), Outcome.ok_bind, if_neg (by simp),
        ih (fun x hx => hfits x (List.mem_cons_of_mem _ hx))
          (fun x hx => hin x (List.mem_cons_of_mem _ hx)) (by omega) hdrop,
        List.flatMap_cons, List.length_append, ← Nat.add_assoc, List.foldl_cons]

theorem dataOf_cons (ctype : List Byte) (c : Chunk) (cs : List Chunk) :
    Chunk.dataOf ctype (c :: cs) =
      if c.ctype = ctype then c.data :: Chunk.dataOf ctype cs else Chunk.dataOf ctype cs := by
  rw [Chunk.dataOf, List.filter_cons]
  by_cases h : c.ctype = ctype
  · simp [h, Chunk.dataOf]
  · simp [h, Chunk.dataOf]

/-- What a run of chunks leaves in the loop's variables. -/
theorem foldl_add (body : List Chunk) (s : Chunks) :
    (body.foldl Chunks.add s).width = s.width ∧ (body.foldl Chunks.add s).height = s.height ∧
      (body.foldl Chunks.add s).bitDepth = s.bitDepth ∧
      (body.foldl Chunks.add s).colorType = s.colorType ∧
      (body.foldl Chunks.add s).interlace = s.interlace ∧
      (body.foldl Chunks.add s).idat = s.idat ++ (Chunk.dataOf tIDAT body).flatten ∧
      (body.foldl Chunks.add s).trns = (Chunk.dataOf tTRNS body).getLastD s.trns ∧
      (body.foldl Chunks.add s).palette =
        ((Chunk.dataOf tPLTE body).map triples).getLastD s.palette := by
  induction body generalizing s with
  | nil => simp [Chunk.dataOf]
  | cons c cs ih =>
      obtain ⟨h1, h2, h3, h4, h5, h6, h7, h8⟩ := ih (s.add c)
      rw [List.foldl_cons, h1, h2, h3, h4, h5, h6, h7, h8]
      have hpt : tPLTE ≠ tTRNS := by decide
      have hpi : tPLTE ≠ tIDAT := by decide
      have hti : tTRNS ≠ tIDAT := by decide
      rw [dataOf_cons, dataOf_cons, dataOf_cons, Chunks.add]
      by_cases hp : c.ctype = tPLTE
      · rw [hp, if_pos rfl, if_pos rfl, if_neg hpt, if_neg hpi, List.map_cons, List.getLastD_cons]
        exact ⟨rfl, rfl, rfl, rfl, rfl, rfl, rfl, rfl⟩
      · by_cases ht : c.ctype = tTRNS
        · rw [ht, if_neg hpt.symm, if_neg hpt.symm, if_pos rfl, if_pos rfl, if_neg hti,
            List.getLastD_cons]
          exact ⟨rfl, rfl, rfl, rfl, rfl, rfl, rfl, rfl⟩
        · by_cases hi : c.ctype = tIDAT
          · rw [hi, if_neg hpi.symm, if_neg hpi.symm, if_neg hti.symm, if_neg hti.symm, if_pos rfl,
              if_pos rfl, List.flatten_cons, ← List.append_assoc]
            exact ⟨rfl, rfl, rfl, rfl, rfl, rfl, rfl, rfl⟩
          · rw [if_neg hp, if_neg hp, if_neg ht, if_neg ht, if_neg hi, if_neg hi]
            exact ⟨rfl, rfl, rfl, rfl, rfl, rfl, rfl, rfl⟩

theorem triples_flatMap (entries : List (Byte × Byte × Byte)) :
    triples (entries.flatMap fun e => [e.1, e.2.1, e.2.2]) =
      entries.map fun e => [e.1, e.2.1, e.2.2] := by
  induction entries with
  | nil => rfl
  | cons e es ih =>
      rw [List.flatMap_cons, List.map_cons, ← ih]
      rfl

/-- `IHDR` with the picture's header. -/
theorem chunk_header {p : Picture} (hv : p.Valid) (s : Chunks) :
    chunk s tIHDR p.header.length p.header = .ok ({ s with
      width := p.width, height := p.height, bitDepth := 8, colorType := p.colour.code,
      interlace := 0 }, false) := by
  have hw : be32 (beBytes p.width) = .ok p.width := be32_beBytes hv.width.2
  have hh : be32 (beBytes p.height) = .ok p.height := be32_beBytes hv.height.2
  have h1 : range! p.header 0 4 = .ok (beBytes p.width) := rfl
  have h2 : range! p.header 4 8 = .ok (beBytes p.height) := rfl
  rw [chunk, if_pos rfl, ihdr, if_neg (by simp [Picture.header, beBytes]), h1, Outcome.ok_bind, hw,
    Outcome.ok_bind, h2, Outcome.ok_bind, hh, Outcome.ok_bind]
  rfl

theorem channels_code (c : Colour) : channels c.code = some c.samples := by cases c <;> rfl

/-- The rest of `decode`, with what a file of the picture has in it. -/
theorem picture_ok {p : Picture} {s : Chunks} {zlib : List Byte} (hv : p.Valid) (hfit : p.Fits)
    (hw : s.width = p.width) (hh : s.height = p.height) (hd : s.bitDepth = 8)
    (hc : s.colorType = p.colour.code) (hi : s.interlace = 0) (hidat : s.idat = zlib)
    (hz : p.Compressed zlib) (hmax : zlib.length < 2 ^ 63) (hk : p.Known s.palette s.trns) :
    picture s = .ok ⟨p.width, p.height, p.pixels⟩ := by
  obtain ⟨head, deflated, st, filters, rfl, hhead, hst, hbits, hout⟩ := hz
  obtain ⟨hraw, hpix⟩ := hfit
  have hw1 := hv.width.1
  have hh1 := hv.height.1
  have hstride : p.stride < 2 ^ 63 := by
    have : p.stride * 1 ≤ p.stride * p.height := Nat.mul_le_mul_left _ hh1
    rw [Nat.add_mul] at hraw
    omega
  have hsize : p.stride * p.height = p.data.length := by rw [hv.data, Nat.mul_comm]
  have hadd : (p.stride + 1) * p.height = p.stride * p.height + p.height := by
    rw [Nat.add_mul, Nat.one_mul]
  have hm1 : checkedMul p.width p.height = some (p.width * p.height) := if_pos (by omega)
  have hm2 : checkedMul p.width p.colour.samples = some p.stride := if_pos (by
    rw [← Picture.stride]
    omega)
  have hlen := p.length_scanlines filters
  have hinf : inflate deflated = .ok (p.scanlines filters) := by
    rw [← hout]
    refine inflate_stream hst ?_ hbits
    rw [List.length_append] at hmax
    omega
  have h0 := Picture.unfilter_done hv ⟨hraw, hpix⟩ filters (Nat.zero_add p.height)
  have h1 := expand_ok hk hv ⟨hraw, hpix⟩ (Nat.zero_add (p.width * p.height))
    (show ([] : List Byte).length = 0 * 4 from rfl)
  rw [Nat.zero_mul, Picture.done_zero] at h0
  rw [padded, List.nil_append, List.length_nil, Nat.sub_zero, ← List.range_eq_range'] at h1
  rw [picture, hw, hh, hd, hi, hc, hidat, if_neg (by omega), if_neg (by decide), channels_code,
    Outcome.okOr_some, Outcome.ok_bind, if_neg (by rw [List.length_append]; omega), hm1,
    Outcome.okOr_some, Outcome.ok_bind, hm2, Outcome.okOr_some, Outcome.ok_bind,
    List.drop_left' hhead, hinf, Outcome.ok_bind, usize_ok (by omega), Outcome.ok_bind,
    usize_ok (by omega), Outcome.ok_bind, if_neg (by omega), usize_ok (by omega), Outcome.ok_bind,
    zeroed, if_pos (by omega), Outcome.ok_bind, hsize, h0, Outcome.ok_bind, usize_ok (by omega),
    Outcome.ok_bind, zeroed, if_pos (by omega), Outcome.ok_bind, h1, Outcome.ok_bind]
  rfl

theorem length_le_bytes (body : List Chunk) : body.length ≤ (body.flatMap Chunk.bytes).length := by
  induction body with
  | nil => exact Nat.zero_le _
  | cons c cs ih =>
      have : 1 ≤ c.bytes.length := by
        rw [Chunk.bytes, List.length_append, beBytes]
        exact Nat.le_add_right_of_le (by simp)
      rw [List.flatMap_cons, List.length_append, List.length_cons]
      omega

theorem length_dataOf (ctype : List Byte) (body : List Chunk) :
    (Chunk.dataOf ctype body).flatten.length ≤ (body.flatMap Chunk.bytes).length := by
  induction body with
  | nil => exact Nat.zero_le _
  | cons c cs ih =>
      have : c.data.length ≤ c.bytes.length := by
        rw [Chunk.bytes]
        simp only [List.length_append]
        omega
      rw [dataOf_cons, List.flatMap_cons, List.length_append]
      split
      · rw [List.flatten_cons, List.length_append]
        omega
      · omega

/-- `decode` undoes the encoding of a picture. -/
theorem decode_encoded {p : Picture} (hv : p.Valid) (hfit : p.Fits) {l : Layout}
    (he : p.Encoded l) (hmax : (p.file l).length < 2 ^ 63) :
    decode (p.file l) = .ok ⟨p.width, p.height, p.pixels⟩ := by
  have hIHDR : ascii "IHDR" = tIHDR := by decide
  have hIEND : ascii "IEND" = tIEND := by decide
  have hPLTE : ascii "PLTE" = tPLTE := by decide
  have hTRNS : ascii "tRNS" = tTRNS := by decide
  have hIDAT : ascii "IDAT" = tIDAT := by decide
  obtain ⟨⟨hcrc1, hcrc2⟩, hfits, hinner, hidat, hpal⟩ := he
  rw [hIHDR, hIEND] at hinner
  rw [hIDAT] at hidat
  rw [hPLTE, hTRNS] at hpal
  have hbytes := length_le_bytes l.body
  -- where the three parts of the file start
  let first : Chunk := ⟨tIHDR, p.header, l.ihdrCrc⟩
  let last : Chunk := ⟨tIEND, [], l.iendCrc⟩
  have hf1 : first.Fits := ⟨rfl, by show p.header.length < _; simp [Picture.header, beBytes], hcrc1⟩
  have hf2 : last.Fits := ⟨rfl, by show 0 < _; decide, hcrc2⟩
  have hd1 : (p.file l).drop 8 =
      first.bytes ++ (l.body.flatMap Chunk.bytes ++ (last.bytes ++ l.trailer)) := by
    rw [Picture.file, hIHDR, hIEND]
    rfl
  have hlen := congrArg List.length hd1
  simp only [List.length_drop, List.length_append] at hlen
  have h12 : first.bytes.length = 25 := by
    show (Chunk.bytes ⟨tIHDR, p.header, l.ihdrCrc⟩).length = 25
    simp [Chunk.bytes, beBytes, tIHDR, Picture.header, hcrc1]
  have hd2 : (p.file l).drop (8 + first.bytes.length) =
      l.body.flatMap Chunk.bytes ++ (last.bytes ++ l.trailer) := by
    rw [← List.drop_drop, hd1, List.drop_left]
  have hd3 : (p.file l).drop (8 + first.bytes.length + (l.body.flatMap Chunk.bytes).length) =
      last.bytes ++ l.trailer := by
    rw [← List.drop_drop, hd2, List.drop_left]
  obtain ⟨k, hk⟩ : ∃ k, (p.file l).length = l.body.length + (k + 1) :=
    ⟨(p.file l).length - l.body.length - 1, by omega⟩
  -- the chunk loop
  have hs := foldl_add l.body { Chunks.empty with
    width := p.width, height := p.height, bitDepth := 8, colorType := p.colour.code,
    interlace := 0 }
  generalize hs' : l.body.foldl Chunks.add { Chunks.empty with
    width := p.width, height := p.height, bitDepth := 8, colorType := p.colour.code,
    interlace := 0 } = s at hs
  obtain ⟨h1, h2, h3, h4, h5, h6, h7, h8⟩ := hs
  have hwalk : walk (p.file l) ((p.file l).length + 1) 8 .empty = .ok s := by
    rw [hk, walk_chunk hmax hf1 (by omega) hd1, chunk_header hv, Outcome.ok_bind,
      if_neg (by simp), walk_body hmax hfits hinner (by omega) hd2, hs',
      walk_chunk hmax hf2 (by omega) hd3]
    rfl
  have hknown : p.Known s.palette s.trns := by
    intro entries alpha hc
    obtain ⟨hp, ht⟩ := hpal entries alpha hc
    rw [h7, h8, hp]
    refine ⟨triples_flatMap entries, ?_⟩
    rcases ht with ht | ⟨ht, rfl⟩
    · rw [ht]
      rfl
    · rw [ht]
      rfl
  have hz : (Chunk.dataOf tIDAT l.body).flatten.length < 2 ^ 63 := by
    have := length_dataOf tIDAT l.body
    omega
  have hsig : (p.file l).take 8 = sig := rfl
  rw [decode, if_neg (by rw [hsig]; simp; omega), hwalk, Outcome.ok_bind]
  exact picture_ok hv hfit h1 h2 h3 h4 h5 h6 hidat hz hknown

/-- Two by two pixels of red at half alpha and green, one scanline filtered
with `sub`, the other with `paeth`. -/
def twoByTwo : Picture := ⟨2, 2, .palette [(255, 0, 0), (0, 255, 0)] [128], [0, 1, 1, 0]⟩

/-- Its file, with the zlib stream in two `IDAT` chunks. -/
def twoByTwoLayout : Layout where
  ihdrCrc := [69, 104, 253, 22]
  body := [⟨ascii "PLTE", [255, 0, 0, 0, 255, 0], [210, 135, 239, 113]⟩,
    ⟨ascii "tRNS", [128], [173, 94, 91, 70]⟩,
    ⟨ascii "tEXt", [97, 0, 98], [220, 73, 162, 59]⟩,
    ⟨ascii "IDAT", [120, 1, 1, 6, 0], [106, 10, 88, 19]⟩,
    ⟨ascii "IDAT", [249, 255, 1, 0, 1, 4, 1, 255, 1, 29, 1, 7], [116, 129, 9, 30]⟩]
  iendCrc := [174, 66, 96, 130]
  trailer := []

theorem twoByTwo_encoded : twoByTwo.Encoded twoByTwoLayout where
  crcs := by decide
  fits := by
    intro c hc
    simp only [twoByTwoLayout, List.mem_cons, List.not_mem_nil, or_false] at hc
    rcases hc with rfl | rfl | rfl | rfl | rfl <;> exact ⟨by decide, by decide, by decide⟩
  inner := by decide
  idat := ⟨[120, 1], [1, 6, 0, 249, 255, 1, 0, 1, 4, 1, 255, 1, 29, 1, 7],
    ⟨[], .stored [false, false, false, false, false] [1, 0, 1, 4, 1, 255]⟩,
    fun y => if y = 0 then .sub else .paeth, by decide, rfl, by decide,
    ⟨bitsOf [1, 29, 1, 7], by decide⟩, by decide⟩
  palette := by
    intro entries alpha h
    cases h
    exact ⟨by decide, .inl (by decide)⟩

theorem decode_twoByTwo :
    decode (twoByTwo.file twoByTwoLayout) =
      .ok ⟨2, 2, [255, 0, 0, 128, 0, 255, 0, 255, 0, 255, 0, 255, 255, 0, 0, 128]⟩ := by
  have hpx : twoByTwo.pixels =
      [255, 0, 0, 128, 0, 255, 0, 255, 0, 255, 0, 255, 255, 0, 0, 128] := by decide +kernel
  rw [← hpx]
  exact decode_encoded ⟨by decide, by decide, by decide⟩ ⟨by decide, by decide⟩ twoByTwo_encoded
    (by decide +kernel)

end TablesOS.Png
