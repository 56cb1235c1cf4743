import Lininoio.Blocks
import Lininoio.ChannelTable

/-! The image that `setup_remoteproc_fw` writes is read back: its header, its
offset array and the resource of each channel. -/

namespace Lininoio

open StateFault Blocks CircularLinks

/-- A `u32` in the byte order of the host. -/
def u32OfBytes (bigEndian : Bool) (bytes : List UInt8) : Nat :=
  (if bigEndian then bytes.reverse else bytes).foldr (fun b v => b.toNat + 256 * v) 0

@[simp] theorem length_u32Bytes (bigEndian : Bool) (v : Nat) : (u32Bytes bigEndian v).length = 4 := by
  cases bigEndian <;> rfl

theorem u32OfBytes_u32Bytes (bigEndian : Bool) {v : Nat} (h : v < 2 ^ 32) :
    u32OfBytes bigEndian (u32Bytes bigEndian v) = v := by
  have hle : ([UInt8.ofNat v, UInt8.ofNat (v / 2 ^ 8), UInt8.ofNat (v / 2 ^ 16),
      UInt8.ofNat (v / 2 ^ 24)].foldr (fun b v => b.toNat + 256 * v) 0) = v := by
    simp only [List.foldr_cons, List.foldr_nil, UInt8.toNat_ofNat']
    omega
  cases bigEndian with
  | false => exact hle
  | true => simpa [u32OfBytes, u32Bytes] using hle

theorem written_memcpy (p : Memory) (off : Nat) (bytes : List UInt8) :
    Written p off bytes (memcpy p off bytes) where
  slice_eq := by
    apply List.ext_getElem
    · simp
    · intro i hi hi'
      simp [slice, memcpy, hi']
  frame i hi := by
    have hout : ¬ (off ≤ i ∧ i < off + bytes.length) := by omega
    simp only [memcpy, if_neg hout]

theorem slice_memcpy_u32 (p : Memory) (off : Nat) (bigEndian : Bool) (v : Nat) :
    slice (memcpy p off (u32Bytes bigEndian v)) off 4 = u32Bytes bigEndian v := by
  simpa using (written_memcpy p off (u32Bytes bigEndian v)).slice_eq

theorem memcpy_u32_frame (p : Memory) {off i : Nat} (bigEndian : Bool) (v : Nat)
    (h : i < off ∨ off + 4 ≤ i) : memcpy p off (u32Bytes bigEndian v) i = p i :=
  (written_memcpy p off (u32Bytes bigEndian v)).frame i (by simpa using h)

/-- The `blocks` have been placed from the cursor `r` on, and their offsets from entry
`i` of the array on. -/
structure Placed (bigEndian : Bool) (rt i r : Nat) (blocks : List (List UInt8)) (p q : Memory) :
    Prop where
  block : ∀ k (hk : k < blocks.length), slice q (r + start blocks k) blocks[k].length = blocks[k]
  offset : ∀ k < blocks.length, slice q (rt + resourceTableSize + 4 * (i + k)) 4 =
    u32Bytes bigEndian (r + start blocks k - rt)
  frame : ∀ x < r, x < rt + resourceTableSize + 4 * i ∨
    rt + resourceTableSize + 4 * (i + blocks.length) ≤ x → q x = p x

theorem Placed.cons {bigEndian : Bool} {rt i r : Nat} {b : List UInt8} {blocks : List (List UInt8)}
    {p q : Memory} (hr : rt + resourceTableSize + 4 * (i + 1 + blocks.length) ≤ r)
    (h : Placed bigEndian rt (i + 1) (r + b.length) blocks
      (memcpy (memcpy p (rt + resourceTableSize + 4 * i) (u32Bytes bigEndian (r - rt))) r b) q) :
    Placed bigEndian rt i r (b :: blocks) p q := by
  have hres := written_memcpy (memcpy p (rt + resourceTableSize + 4 * i)
    (u32Bytes bigEndian (r - rt))) r b
  refine ⟨fun k hk => ?_, fun k hk => ?_, fun x hx hout => ?_⟩
  · cases k with
    | zero =>
      refine Eq.trans (slice_congr fun x hlo hhi => ?_) hres.slice_eq
      exact h.frame x hhi (.inr (by rw [start_zero] at hlo; omega))
    | succ k =>
      have hk' := h.block k (Nat.lt_of_succ_lt_succ hk)
      simpa only [start_cons_succ, List.getElem_cons_succ, Nat.add_assoc] using hk'
  · cases k with
    | zero =>
      rw [start_zero, Nat.add_zero, Nat.add_zero, ← slice_memcpy_u32 p]
      refine slice_congr fun x hlo hhi => ?_
      rw [h.frame x (by omega) (.inl (by omega)), hres.frame x (by omega)]
    | succ k =>
      have hk' := h.offset k (Nat.lt_of_succ_lt_succ hk)
      rw [show i + (k + 1) = i + 1 + k by omega, start_cons_succ, ← Nat.add_assoc]
      exact hk'
  · rw [List.length_cons] at hout
    rw [h.frame x (by omega) (by omega), hres.frame x (by omega),
      memcpy_u32_frame _ _ _ (by omega)]

theorem placed_placeResources (bigEndian : Bool) {rt i r : Nat} {blocks : List (List UInt8)}
    {p : Memory} (hr : rt + resourceTableSize + 4 * (i + blocks.length) ≤ r) :
    (placeResources bigEndian rt i r blocks p).2 = r + total blocks ∧
      Placed bigEndian rt i r blocks p (placeResources bigEndian rt i r blocks p).1 := by
  induction blocks generalizing i r p with
  | nil => exact ⟨rfl, by simp, by simp, fun x _ _ => rfl⟩
  | cons b blocks ih =>
    rw [List.length_cons] at hr
    have hi := ih (i := i + 1) (r := r + b.length)
      (p := memcpy (memcpy p (rt + resourceTableSize + 4 * i) (u32Bytes bigEndian (r - rt))) r b)
      (by omega)
    refine ⟨?_, hi.2.cons (by omega)⟩
    rw [total_cons, ← Nat.add_assoc]
    exact hi.1

def tableRegion (image : List UInt8) (off len : Nat) : List UInt8 :=
  (image.drop (r2pHdrSize + off)).take len

def u32At (bigEndian : Bool) (image : List UInt8) (off : Nat) : Nat :=
  u32OfBytes bigEndian ((image.drop off).take 4)

/-- `r2p_hdr->len`, `rt->num` and `rt->offset[i]` of an image. -/
def imageLen (bigEndian : Bool) (image : List UInt8) : Nat := u32At bigEndian image 4

def imageNum (bigEndian : Bool) (image : List UInt8) : Nat := u32At bigEndian image (r2pHdrSize + 4)

def imageOffset (bigEndian : Bool) (image : List UInt8) (i : Nat) : Nat :=
  u32At bigEndian image (r2pHdrSize + resourceTableSize + 4 * i)

structure Describes (bigEndian : Bool) (image : List UInt8) (blocks : List (List UInt8)) : Prop where
  len : r2pHdrSize + imageLen bigEndian image = image.length
  num : imageNum bigEndian image = blocks.length
  block : ∀ i (hi : i < blocks.length),
    tableRegion image (imageOffset bigEndian image i) blocks[i].length = blocks[i]
  inside : ∀ i (hi : i < blocks.length),
    imageOffset bigEndian image i + blocks[i].length ≤ imageLen bigEndian image
  behind : ∀ i < blocks.length, resourceTableSize + 4 * blocks.length ≤ imageOffset bigEndian image i
  disjoint : ∀ i j (hi : i < blocks.length), i < j → j < blocks.length →
    imageOffset bigEndian image i + blocks[i].length ≤ imageOffset bigEndian image j

def imageSize (blocks : List (List UInt8)) : Nat :=
  r2pHdrSize + resourceTableSize + 4 * blocks.length + total blocks

theorem describes_of_slices {bigEndian : Bool} {q : Memory} {blocks : List (List UInt8)}
    (hlen : slice q 4 4 = u32Bytes bigEndian (imageSize blocks - r2pHdrSize))
    (hnum : slice q (r2pHdrSize + 4) 4 = u32Bytes bigEndian blocks.length)
    (hblock : ∀ k (hk : k < blocks.length), slice q (r2pHdrSize + resourceTableSize +
      4 * blocks.length + start blocks k) blocks[k].length = blocks[k])
    (hoff : ∀ k < blocks.length, slice q (r2pHdrSize + resourceTableSize + 4 * k) 4 =
      u32Bytes bigEndian (resourceTableSize + 4 * blocks.length + start blocks k))
    (hsize : imageSize blocks < 2 ^ 32) :
    Describes bigEndian (slice q 0 (imageSize blocks)) blocks := by
  have hread : ∀ {off v}, slice q off 4 = u32Bytes bigEndian v → off + 4 ≤ imageSize blocks →
      v < 2 ^ 32 → u32At bigEndian (slice q 0 (imageSize blocks)) off = v := by
    intro off v hv hoff hlt
    rw [u32At, slice_slice hoff, hv, u32OfBytes_u32Bytes bigEndian hlt]
  have hinside : ∀ k (hk : k < blocks.length), start blocks k + blocks[k].length ≤ total blocks :=
    fun k hk => start_add_length_le_total hk
  simp only [imageSize, r2pHdrSize, resourceTableSize] at *
  have hlen' : imageLen bigEndian (slice q 0 (8 + 16 + 4 * blocks.length + total blocks)) =
      16 + 4 * blocks.length + total blocks := by
    rw [imageLen, hread hlen (by omega) (by omega)]
    omega
  have hoff' : ∀ k < blocks.length,
      imageOffset bigEndian (slice q 0 (8 + 16 + 4 * blocks.length + total blocks)) k =
        16 + 4 * blocks.length + start blocks k := by
    intro k hk
    have hh := hinside k hk
    exact hread (hoff k hk) (by simp only [r2pHdrSize, resourceTableSize]; omega) (by omega)
  refine ⟨?_, hread hnum (by simp only [r2pHdrSize]; omega) (by omega), fun i hi => ?_,
    fun i hi => ?_, fun i hi => ?_, fun i j hi hij hj => ?_⟩
  · rw [hlen', length_slice, r2pHdrSize]
    omega
  · have hh := hinside i hi
    have hadd : 8 + (16 + 4 * blocks.length + start blocks i) =
      8 + 16 + 4 * blocks.length + start blocks i := by omega
    rw [hoff' i hi, tableRegion, r2pHdrSize, hadd, slice_slice (by omega)]
    exact hblock i hi
  · have hh := hinside i hi
    rw [hoff' i hi, hlen']
    omega
  · rw [hoff' i hi, resourceTableSize]
    omega
  · have hh := start_add_length_le_start hi hij
    rw [hoff' i hi, hoff' j hj]
    omega

theorem firmwareImage_eq (bigEndian : Bool) (magic : Nat) (blocks : List (List UInt8)) : ∃ p q,
    firmwareImage bigEndian magic blocks.length blocks =
      slice (memcpy q 4 (u32Bytes bigEndian (imageSize blocks - r2pHdrSize))) 0 (imageSize blocks) ∧
    slice p (r2pHdrSize + 4) 4 = u32Bytes bigEndian blocks.length ∧
    Placed bigEndian r2pHdrSize 0 (r2pHdrSize + resourceTableSize + 4 * blocks.length) blocks p q := by
  have hroom : r2pHdrSize + resourceTableSize + 4 * (0 + blocks.length) ≤
      r2pHdrSize + resourceTableSize + 4 * blocks.length := by omega
  have hplaced := placed_placeResources bigEndian
    (p := memcpy (memcpy (memcpy (fun _ => 0) 0 (u32Bytes bigEndian magic)) r2pHdrSize
      (u32Bytes bigEndian 1)) (r2pHdrSize + 4) (u32Bytes bigEndian blocks.length)) hroom
  refine ⟨_, _, ?_, slice_memcpy_u32 _ _ _ _, hplaced.2⟩
  have hcursor := hplaced.1
  change _ = imageSize blocks at hcursor
  rw [← hcursor]
  simp [firmwareImage, slice]

theorem length_firmwareImage (bigEndian : Bool) (magic : Nat) (blocks : List (List UInt8)) :
    (firmwareImage bigEndian magic blocks.length blocks).length = imageSize blocks := by
  obtain ⟨p, q, heq, -⟩ := firmwareImage_eq bigEndian magic blocks
  rw [heq, length_slice]

theorem describes_firmwareImage (bigEndian : Bool) (magic : Nat) {blocks : List (List UInt8)}
    (hsize : imageSize blocks < 2 ^ 32) :
    Describes bigEndian (firmwareImage bigEndian magic blocks.length blocks) blocks := by
  obtain ⟨p, q, heq, hnum, hblock, hoff, hframe⟩ := firmwareImage_eq bigEndian magic blocks
  have hle : r2pHdrSize + resourceTableSize + 4 * blocks.length ≤ imageSize blocks :=
    Nat.le_add_right _ _
  rw [heq]
  refine describes_of_slices (slice_memcpy_u32 _ _ _ _) ?_ (fun k hk => ?_) (fun k hk => ?_) hsize
  · refine Eq.trans (slice_congr fun x hlo hhi => ?_) hnum
    simp only [r2pHdrSize, resourceTableSize] at *
    rw [memcpy_u32_frame _ _ _ (by omega), hframe x (by omega) (by omega)]
  · refine Eq.trans (slice_congr fun x hlo hhi => ?_) (hblock k hk)
    rw [memcpy_u32_frame _ _ _ (by simp only [r2pHdrSize, resourceTableSize] at *; omega)]
  · have hk' := hoff k hk
    rw [Nat.zero_add] at hk'
    refine Eq.trans (slice_congr fun x hlo hhi => ?_) (hk'.trans (congrArg _ ?_))
    · rw [memcpy_u32_frame _ _ _ (by simp only [r2pHdrSize, resourceTableSize] at *; omega)]
    · simp only [r2pHdrSize, resourceTableSize]
      omega

section Writing

variable {L σ : Type} (env : Env σ) {s : Daemon L σ}

variable {env} in
theorem ResourcesRead.of_initialised {cs : List ChanPtr} {U : List Effect}
    {blocks read : List (List UInt8)} (hread : ResourcesRead env s cs U read)
    (h : List.Forall₂ (Initialised s) cs blocks) : U = [] ∧ read = blocks := by
  induction hread generalizing blocks with
  | nil =>
    cases h
    exact ⟨rfl, rfl⟩
  | set hx _ ih =>
    obtain ⟨ch, hch, hres⟩ := hx
    cases h with
    | cons hy hrest =>
      obtain ⟨ch', hch', hres'⟩ := hy
      obtain rfl := Option.some.inj (hch.symm.trans hch')
      obtain ⟨rfl, rfl⟩ := ih hrest
      exact ⟨rfl, by rw [Option.some.inj (hres.symm.trans hres')]⟩
  | unset hch hres _ _ =>
    cases h with
    | cons hy _ =>
      obtain ⟨ch', hch', hres'⟩ := hy
      obtain rfl := Option.some.inj (hch.symm.trans hch')
      rw [hres] at hres'
      cases hres'

theorem not_dangling_of_initialised {cs : List ChanPtr} {blocks : List (List UInt8)}
    (h : List.Forall₂ (Initialised s) cs blocks) : ¬ Dangling s cs := by
  intro hh
  obtain ⟨x, hx, hnone⟩ := hh
  induction h with
  | nil => exact absurd hx List.not_mem_nil
  | cons hy _ ih =>
    rcases List.mem_cons.mp hx with rfl | hx
    · obtain ⟨ch, hch, -⟩ := hy
      rw [hnone] at hch
      cases hch
    · exact ih hx

/-- Whatever is written to the firmware file describes the resources of the channels of the
core, in the order of its list, and with a positive answer it has been written. The answer is
positive for a core with a name, if the file is opened and there is a page. A page has
the size that `getpagesize()`, an `int`, returns. -/
theorem firmware_image_describes_channels {c : CorePtr} {blocks : List (List UInt8)}
    {pageSize : Fin (2 ^ 31)} (hcount : (s.core c).nchannels = (s.core c).channels.length)
    (hblocks : List.Forall₂ (Initialised s) (s.core c).channels blocks)
    (hpage : imageSize blocks ≤ pageSize) :
    wp (setupRemoteprocFw env c) (fun r t => ∃ E, t.trace = s.trace ++ E ∧
      (∀ fd image ret, .sys (.write fd image) ret ∈ E → Describes env.bigEndian image blocks) ∧
      (r.isSome → ∃ fd image ret, .sys (.write fd image) ret ∈ E) ∧
      (r.isSome ↔ (s.core c).rprocName ≠ [] ∧ ReachesCopy env s c)) (fun _ _ => False) s := by
  have hdescr : Describes env.bigEndian
      (firmwareImage env.bigEndian env.simpleFirmwareMagic (s.core c).nchannels blocks) blocks := by
    have hlt := pageSize.isLt
    rw [hcount, hblocks.length_eq]
    exact describes_firmwareImage env.bigEndian env.simpleFirmwareMagic (by omega)
  refine wp_mono (wp_setupRemoteprocFw_trace env s c) ?_
    fun _ _ hf => not_dangling_of_initialised hblocks hf
  intro r t ht
  obtain ⟨E, hrun, htrace, hpositive⟩ := ht
  refine ⟨E, hrun.trace, fun fd image ret hm => ?_, fun hsome => ?_, hpositive⟩
  · cases htrace with
    | unnamed hname => simp at hm
    | noFile hfd => simp at hm
    | noPage hfd hmem => simp at hm
    | @written fd' m U read w x hfd hmem hread =>
      obtain ⟨rfl, rfl⟩ := hread.of_initialised hblocks
      obtain ⟨⟨-, himage⟩, -⟩ : (fd = fd' ∧ image = firmwareImage env.bigEndian
          env.simpleFirmwareMagic (s.core c).nchannels read) ∧ ret = w := by simpa using hm
      rwa [himage]
  · cases htrace with
    | written hfd hmem hread => exact ⟨_, _, _, List.mem_append_right _ List.mem_cons_self⟩
    | _ => simp at hsome

end Writing

def twoChannels : Daemon (Links Cell) Unit :=
  { boardDaemon with
    core := fun _ => ⟨[65], ⟨none, [], [], 0, 0, 0⟩, 2, [0, 1], 0⟩
    chan := fun x => some ⟨2, 0, UInt8.ofNat x, none,
      ⟨none, ⟨0, []⟩, some (List.replicate (x + 3) 7)⟩⟩ }

theorem two_channels_described : wp (setupRemoteprocFw bareHost 0) (fun _ t => ∃ E fd image ret,
    t.trace = twoChannels.trace ++ E ∧ .sys (.write fd image) ret ∈ E ∧
    Describes false image [[7, 7, 7], [7, 7, 7, 7]]) (fun _ _ => False) twoChannels := by
  refine wp_mono (firmware_image_describes_channels bareHost rfl
    (.cons ⟨_, rfl, rfl⟩ (.cons ⟨_, rfl, rfl⟩ .nil))
    (show imageSize _ ≤ ((4096 : Fin (2 ^ 31)) : Nat) by decide)) ?_ (fun _ _ hf => hf)
  intro r t hh
  obtain ⟨E, htrace, hdescr, hwritten, hpositive⟩ := hh
  obtain ⟨fd, image, ret, hm⟩ := hwritten (hpositive.mpr ⟨by simp [twoChannels], by decide, by decide⟩)
  exact ⟨E, fd, image, ret, htrace, hm, hdescr fd image ret hm⟩

end Lininoio
