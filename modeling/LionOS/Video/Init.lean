import LionOS.Boot.Walkers
import LionOS.Spaces.Refinement
import LionOS.Library.Writes
import LionOS.Video.Blit

/-! `framebuffer_init`: the framebuffer that the firmware describes is mapped behind
`FB_VIRTUAL_BASE`, and what `put_pixel` writes there. -/
namespace LionOS.Video
open LionOS.Library LionOS.Paging
open LionOS.Physical (Byte Mem)
open LionOS.Processes (wrap)
open LionOS.Memory (pageSize)

def fbVirtualBase : Nat := 0xF4000000
def fbMaxMappedSize : Nat := 0x04000000

/-- The fields of `struct mb2_fb_tag`. -/
structure FbTag where
  addr : BitVec 64
  pitch : BitVec 32
  width : BitVec 32
  height : BitVec 32
  bpp : Byte
  type : Byte
  redPosition : Byte
  redMask : Byte
  greenPosition : Byte
  greenMask : Byte
  bluePosition : Byte
  blueMask : Byte
  deriving DecidableEq

/-- The tag that starts at an address of the boot information. -/
def fbTagAt (bytes : Nat → Byte) (tag : Nat) : FbTag where
  addr := BitVec.ofNat 64 (Frames.read64 bytes (Boot.pointer (tag + 8)))
  pitch := BitVec.ofNat 32 (Frames.read32 bytes (Boot.pointer (tag + 16)))
  width := BitVec.ofNat 32 (Frames.read32 bytes (Boot.pointer (tag + 20)))
  height := BitVec.ofNat 32 (Frames.read32 bytes (Boot.pointer (tag + 24)))
  bpp := bytes (Boot.pointer (tag + 28))
  type := bytes (Boot.pointer (tag + 29))
  redPosition := bytes (Boot.pointer (tag + 32))
  redMask := bytes (Boot.pointer (tag + 33))
  greenPosition := bytes (Boot.pointer (tag + 34))
  greenMask := bytes (Boot.pointer (tag + 35))
  bluePosition := bytes (Boot.pointer (tag + 36))
  blueMask := bytes (Boot.pointer (tag + 37))

/-- The type and the depths that `framebuffer_prepare` and `framebuffer_init` accept. -/
def FbTag.accepted (t : FbTag) : Bool := t.type == 1 && (t.bpp == 16 || t.bpp == 24 || t.bpp == 32)

theorem fbTagAt_accepted (bytes : Nat → Byte) (tag : Nat) : (fbTagAt bytes tag).accepted = Boot.modeAccepted bytes tag := by
  have depth (n : Nat) (b : Byte) (small : n < 256) : (b == BitVec.ofNat 8 n) = decide (b.toNat = n) := by
    rw [Bool.eq_iff_iff,beq_iff_eq,decide_eq_true_iff,← BitVec.toNat_inj,BitVec.toNat_ofNat,Nat.mod_eq_of_lt small]
  change (_ && (_ == BitVec.ofNat 8 16 || _ == BitVec.ofNat 8 24 || _ == BitVec.ofNat 8 32)) = _
  unfold fbTagAt
  dsimp only
  rw [depth 16 _ (by decide),depth 24 _ (by decide),depth 32 _ (by decide),Boot.modeAccepted]
  simp [Bool.or_assoc]

/-- `paging_map_kernel_page`: the memory with the entry of the page, or none where it returns -1. -/
def pagingMapKernelPage (image : Image) (m : Mem) (virtualAddress : Nat) (physicalAddress : BitVec 64) (flags : Nat) : Option Mem :=
  if virtualAddress % pageSize ≠ 0 ∨ physicalAddress.toNat % pageSize ≠ 0 then none
  else if virtualAddress < kernelMmioBase then none
  else
    let pdptIndex := virtualAddress / 2^30
    let pdIndex := virtualAddress / 2^21 % 512
    let ptIndex := virtualAddress / 2^12 % 512
    if pdptIndex ≠ 3 ∨ pdIndex < kernelMmioPdIndex then none
    else
      let mmioIndex := pdIndex - kernelMmioPdIndex
      if mmioIndex ≥ kernelMmioPtCount then none
      else
        let table := image.kernelMmioPt / pageSize + mmioIndex
        some (Function.update m table (Function.update (m table) ptIndex
          ((physicalAddress &&& pteAddrMask) ||| (BitVec.ofNat 64 flags &&& pteFlagsMask) ||| ptePresent)))

/-- The size of the framebuffer in whole pages, cut to 32 bits. -/
def mappedSize (t : FbTag) : Nat :=
  let offset := t.addr.toNat % pageSize
  let bytes := t.pitch.toNat * t.height.toNat + offset
  wrap ((bytes + pageSize - 1) / pageSize * pageSize)

/-- The address of a page of the framebuffer. -/
def framePage (page : Nat) : Nat := wrap (fbVirtualBase + page * pageSize)

/-- The screen and the page tables after `framebuffer_init` took a tag, before the console clears
the screen; none where it returns -1. -/
def mapFramebuffer (image : Image) (m : Mem) (d : Display) (t : FbTag) : Option (Display × Mem) :=
  if t.width = 0 ∨ t.height = 0 ∨ t.pitch = 0 then none
  else
    let offset := t.addr.toNat % pageSize
    let aligned := t.addr.toNat - offset
    let mapped := mappedSize t
    if mapped = 0 ∨ mapped > fbMaxMappedSize then none
    else
      (forEach (List.range (mapped / pageSize)) (fun page m =>
        pagingMapKernelPage image m (framePage page) (BitVec.ofNat 64 (aligned + page * pageSize)) 0x3) m).map
          fun m =>
            ({ d with
              enabled := true
              fb := wrap (fbVirtualBase + offset)
              pitch := t.pitch.toNat
              width := t.width.toNat
              height := t.height.toNat
              format := ⟨t.bpp.toNat,t.redPosition.toNat,t.redMask.toNat,t.greenPosition.toNat,t.greenMask.toNat,
                t.bluePosition.toNat,t.blueMask.toNat⟩ },m)

/-- `framebuffer_init` with the tag that `framebuffer_prepare` has saved or the walk over the
boot information finds first. -/
def framebufferInit (image : Image) (m : Mem) (d : Display) (tag : Option FbTag) : Option (Display × Mem) :=
  match tag with
  | none => none
  | some t => if t.accepted then mapFramebuffer image m d t else none

/-- The bytes that `put_pixel` writes for a pixel of the screen. -/
def PixelBytes (d : Display) (x y address : Nat) : Prop := ∃ i < packedBytes d.format.bpp,address = wrap (pixelAddress d x y + i)

/-- No product of the address of a pixel leaves 32 bits, each pixel lies in what is mapped, and
no two pixels share a byte. -/
structure Addressable (d : Display) (t : FbTag) : Prop where
  products : ∀ x < d.width,∀ y < d.height,y * d.pitch < 2^32 ∧ x * bytesOf d.format.bpp < 2^32
  inside : ∀ x < d.width,∀ y < d.height,∀ address,PixelBytes d x y address →
    fbVirtualBase + t.addr.toNat % pageSize ≤ address ∧ address < fbVirtualBase + mappedSize t
  apart : ∀ x < d.width,∀ y < d.height,∀ x' < d.width,∀ y' < d.height,∀ address,
    PixelBytes d x y address → PixelBytes d x' y' address → x = x' ∧ y = y'

/-- The rows do not run into each other, and the last pixel ends within the whole pages of the
framebuffer, of whose size the code keeps 32 bits. -/
def FbTag.Fits (t : FbTag) : Prop :=
  (t.height = 1 ∨ t.width.toNat * bytesOf t.bpp.toNat ≤ t.pitch.toNat) ∧
    t.addr.toNat % 4096 + t.pitch.toNat * (t.height.toNat - 1) + t.width.toNat * bytesOf t.bpp.toNat ≤
      (t.pitch.toNat * t.height.toNat + t.addr.toNat % 4096 + 4095) / 4096 * 4096 % 2^32

instance (t : FbTag) : Decidable t.Fits := inferInstanceAs (Decidable (_ ∧ _))

section Writes

/-- `write_packed_pixel` changes the bytes of its pixel only. -/
theorem writePackedPixel_outside {bpp : Nat} {memory : Nat → Byte} {dst address : Nat} {packed : Pixel}
    (outside : ∀ i < packedBytes bpp,address ≠ wrap (dst + i)) : writePackedPixel bpp memory dst packed address = memory address := by
  have writes : writePackedPixel bpp memory dst packed =
      writeAll memory ((List.range (packedBytes bpp)).map fun i => (wrap (dst + i),(packed >>> (8 * i)).setWidth 8)) := by
    rw [writePackedPixel,writeAll,List.foldl_map]
  rw [writes]
  refine writeAll_outside ?_ memory
  rintro ⟨value,member⟩
  obtain ⟨i,below,same⟩ := List.mem_map.mp member
  exact outside i (List.mem_range.mp below) (congrArg Prod.fst same).symm

theorem putPixel_outside {d : Display} {x y address : Nat} {color : Pixel} (outside : ¬PixelBytes d x y address) :
    (putPixel d x y color).memory address = d.memory address := by
  unfold putPixel
  split
  · rfl
  · exact writePackedPixel_outside fun i below same => outside ⟨i,below,same⟩

end Writes

section Pages
variable {image : Image}

/-- The entry of the kernel's page tables for a page behind `KERNEL_MMIO_BASE`. -/
def mmioEntry (image : Image) (m : Mem) (virtualAddress : Nat) : BitVec 64 :=
  m (image.kernelMmioPt / pageSize + (virtualAddress / 2^21 % 512 - kernelMmioPdIndex)) (virtualAddress / 2^12 % 512)

theorem framePage_eq {page : Nat} (below : page < 2^14) : framePage page = fbVirtualBase + page * 4096 := by
  unfold framePage wrap fbVirtualBase pageSize
  omega

/-- The pages of the framebuffer have tables, each page its own entry. -/
theorem map_framePage {page : Nat} (below : page < 2^14) {address : BitVec 64} (aligned : address.toNat % pageSize = 0) (m : Mem) (flags : Nat) :
    ∃ m',pagingMapKernelPage image m (framePage page) address flags = some m' ∧
      mmioEntry image m' (framePage page) = (address &&& pteAddrMask) ||| (BitVec.ofNat 64 flags &&& pteFlagsMask) ||| ptePresent ∧
        ∀ other < 2^14,other ≠ page → mmioEntry image m' (framePage other) = mmioEntry image m (framePage other) := by
  have va := framePage_eq below
  have index : kernelMmioPdIndex = 384 := by decide
  have tables : kernelMmioPtCount = 128 := rfl
  unfold pagingMapKernelPage
  rw [va,if_neg (by unfold fbVirtualBase pageSize at *; omega),if_neg (by unfold fbVirtualBase kernelMmioBase; omega)]
  dsimp only
  rw [if_neg (by rw [index]; unfold fbVirtualBase; omega),if_neg (by rw [index,tables]; unfold fbVirtualBase; omega)]
  refine ⟨_,rfl,?_,fun other inside apart => ?_⟩
  · rw [mmioEntry,Function.update_self,Function.update_self]
  · rw [framePage_eq inside,mmioEntry,mmioEntry]
    by_cases table : image.kernelMmioPt / pageSize + ((fbVirtualBase + other * 4096) / 2^21 % 512 - kernelMmioPdIndex) =
        image.kernelMmioPt / pageSize + ((fbVirtualBase + page * 4096) / 2^21 % 512 - kernelMmioPdIndex)
    · rw [table,Function.update_self,Function.update_of_ne]
      rw [index] at table
      unfold fbVirtualBase at *
      omega
    · rw [Function.update_of_ne table]

/-- The loop of `framebuffer_init` maps every page of the framebuffer. -/
theorem map_pages {n : Nat} (below : n ≤ 2^14) {aligned : Nat} (pages : aligned % pageSize = 0) (m : Mem) :
    ∃ m',forEach (List.range n) (fun page m =>
        pagingMapKernelPage image m (framePage page) (BitVec.ofNat 64 (aligned + page * pageSize)) 0x3) m = some m' ∧
      ∀ page < n,mmioEntry image m' (framePage page) =
        (BitVec.ofNat 64 (aligned + page * pageSize) &&& pteAddrMask) ||| (BitVec.ofNat 64 0x3 &&& pteFlagsMask) ||| ptePresent := by
  induction n with
  | zero => exact ⟨m,rfl,nofun⟩
  | succ n ih =>
    obtain ⟨before,done,mapped⟩ := ih (by omega)
    have whole : (BitVec.ofNat 64 (aligned + n * pageSize)).toNat % pageSize = 0 := by
      rw [BitVec.toNat_ofNat]
      unfold pageSize at *
      omega
    obtain ⟨m',made,own,others⟩ := @map_framePage image n (by omega) (BitVec.ofNat 64 (aligned + n * pageSize)) whole before 0x3
    refine ⟨m',?_,fun page inside => ?_⟩
    · rw [List.range_succ,forEach_append,done,Option.bind_some,forEach_cons,made]
      rfl
    · by_cases last : page = n
      · rw [last]
        exact own
      · rw [others page (by omega) last]
        exact mapped page (by omega)

end Pages

section Geometry
variable {d : Display} {t : FbTag} {b off : Nat}

/-- A screen that `framebuffer_init` has left for a tag. -/
structure Mapped (d : Display) (t : FbTag) : Prop where
  fb : d.fb = fbVirtualBase + t.addr.toNat % pageSize
  pitch : d.pitch = t.pitch.toNat
  width : d.width = t.width.toNat
  height : d.height = t.height.toNat
  bpp : d.format.bpp = t.bpp.toNat
  depth : t.bpp.toNat = 16 ∨ t.bpp.toNat = 24 ∨ t.bpp.toNat = 32
  positive : 0 < t.width.toNat ∧ 0 < t.height.toNat ∧ 0 < t.pitch.toNat
  size : mappedSize t ≤ fbMaxMappedSize

/-- What the accepted tags leave. -/
theorem framebufferInit_mapped {image : Image} {m m' : Mem} {d d' : Display} {t : FbTag}
    (done : framebufferInit image m d (some t) = some (d',m')) : Mapped d' t := by
  unfold framebufferInit at done
  dsimp only at done
  split at done
  next accepted =>
    unfold mapFramebuffer at done
    split at done
    · cases done
    next given =>
      dsimp only at done
      split at done
      · cases done
      next fits =>
        obtain ⟨mapped,_,rfl,rfl⟩ := Option.map_eq_some_iff.mp done
        have offset : t.addr.toNat % pageSize < pageSize := Nat.mod_lt _ (by decide)
        have base : wrap (fbVirtualBase + t.addr.toNat % pageSize) = fbVirtualBase + t.addr.toNat % pageSize := by
          unfold fbVirtualBase pageSize at *
          exact Nat.mod_eq_of_lt (by omega)
        have positive (n : BitVec 32) (some_ : n ≠ 0) : 0 < n.toNat :=
          Nat.pos_of_ne_zero fun zero => some_ (BitVec.eq_of_toNat_eq zero)
        have depth : t.bpp.toNat = 16 ∨ t.bpp.toNat = 24 ∨ t.bpp.toNat = 32 := by
          simp only [FbTag.accepted,Bool.and_eq_true,Bool.or_eq_true,beq_iff_eq] at accepted
          rcases accepted.2 with (is | is) | is
          · exact .inl (congrArg BitVec.toNat is)
          · exact .inr (.inl (congrArg BitVec.toNat is))
          · exact .inr (.inr (congrArg BitVec.toNat is))
        exact ⟨base,rfl,rfl,rfl,rfl,depth,⟨positive _ fun zero => given (.inl zero),positive _ fun zero => given (.inr (.inl zero)),
          positive _ fun zero => given (.inr (.inr zero))⟩,Nat.le_of_not_lt fun large => fits (.inr large)⟩
  · cases done

/-- The depths of 16, 24 and 32 bits take two, three and four bytes. -/
theorem Mapped.bytes (mapped : Mapped d t) :
    ∃ b,2 ≤ b ∧ b ≤ 4 ∧ packedBytes d.format.bpp = b ∧ bytesOf d.format.bpp = b ∧ bytesOf t.bpp.toNat = b := by
  rw [mapped.bpp]
  rcases mapped.depth with is | is | is
  · rw [is]
    exact ⟨2,by decide⟩
  · rw [is]
    exact ⟨3,by decide⟩
  · rw [is]
    exact ⟨4,by decide⟩

/-- The address of a pixel that lies less than the mapped size behind the start. -/
theorem Mapped.address (mapped : Mapped d t) {x y : Nat} (near : y * d.pitch + x * bytesOf d.format.bpp < 2^27) :
    pixelAddress d x y = fbVirtualBase + t.addr.toNat % pageSize + (y * d.pitch + x * bytesOf d.format.bpp) := by
  have offset : t.addr.toNat % pageSize < 4096 := Nat.mod_lt _ (by decide)
  unfold pixelAddress
  rw [mapped.fb]
  unfold wrap fbVirtualBase
  omega

/-- A tag that fits: every pixel lies within the mapped size. -/
theorem Mapped.near (mapped : Mapped d t) (fits : t.Fits) {x y : Nat} (column : x < d.width) (row : y < d.height) :
    t.addr.toNat % pageSize + (y * d.pitch + x * bytesOf d.format.bpp) + bytesOf d.format.bpp ≤ mappedSize t := by
  have whole := fits.2
  change _ ≤ mappedSize t at whole
  obtain ⟨b,_,_,_,own,tagged⟩ := mapped.bytes
  rw [mapped.width] at column
  rw [mapped.height] at row
  have above : y * t.pitch.toNat ≤ (t.height.toNat - 1) * t.pitch.toNat := Nat.mul_le_mul_right _ (by omega)
  have left : (x + 1) * b ≤ t.width.toNat * b := Nat.mul_le_mul_right _ column
  rw [own,mapped.pitch]
  rw [tagged,Nat.mul_comm t.pitch.toNat] at whole
  rw [Nat.add_mul,Nat.one_mul] at left
  unfold pageSize
  omega

theorem Mapped.addressable (mapped : Mapped d t) (fits : t.Fits) : Addressable d t := by
  have size := mapped.size
  unfold fbMaxMappedSize at size
  obtain ⟨b,two,four,packed,own,tagged⟩ := mapped.bytes
  have at_place {x y address : Nat} (column : x < d.width) (row : y < d.height) (byte : PixelBytes d x y address) :
      ∃ i < b,address = fbVirtualBase + t.addr.toNat % pageSize + (y * d.pitch + x * b) + i := by
    obtain ⟨i,below,rfl⟩ := byte
    have near := mapped.near fits column row
    rw [packed] at below
    rw [mapped.address (by omega),own]
    rw [own] at near
    refine ⟨i,below,Nat.mod_eq_of_lt ?_⟩
    unfold fbVirtualBase
    omega
  refine ⟨fun x column y row => ?_,fun x column y row address byte => ?_,fun x column y row x' column' y' row' address byte byte' => ?_⟩
  · have near := mapped.near fits column row
    omega
  · have near := mapped.near fits column row
    obtain ⟨i,below,rfl⟩ := at_place column row byte
    rw [own] at near
    omega
  · obtain ⟨i,below,rfl⟩ := at_place column row byte
    obtain ⟨i',below',same⟩ := at_place column' row' byte'
    have sums : y * d.pitch + (x * b + i) = y' * d.pitch + (x' * b + i') := by omega
    have in_column {v k : Nat} (inside : v < d.width) (part : k < b) : v * b + k < t.width.toNat * b := by
      have left : (v + 1) * b ≤ t.width.toNat * b := Nat.mul_le_mul_right _ (mapped.width ▸ inside)
      rw [Nat.add_mul,Nat.one_mul] at left
      omega
    have rows : y = y' := by
      rcases fits.1 with one | wide
      · have last : t.height.toNat = 1 := congrArg BitVec.toNat one
        have top := mapped.height
        omega
      · rw [tagged,← mapped.pitch] at wide
        rw [← place_div (Nat.lt_of_lt_of_le (in_column column below) wide) y,sums,
          place_div (Nat.lt_of_lt_of_le (in_column column' below') wide) y']
    subst rows
    have columns : x * b + i = x' * b + i' := by omega
    exact ⟨by rw [← place_div below x,columns,place_div below' x'],rfl⟩

/-- Along the first row no pixel can leap over the end of what is mapped. -/
theorem Addressable.first_row (addressable : Addressable d t) (mapped : Mapped d t) {x : Nat} (column : x < d.width) :
    t.addr.toNat % pageSize + x * bytesOf d.format.bpp + bytesOf d.format.bpp ≤ mappedSize t := by
  have size := mapped.size
  unfold fbMaxMappedSize at size
  obtain ⟨b,two,four,packed,own,_⟩ := mapped.bytes
  have row : 0 < d.height := by
    have some_ := mapped.positive.2.1
    have same := mapped.height
    omega
  rw [own]
  have pixel {x : Nat} (column : x < d.width) (near : x * b < 2^27) :
      t.addr.toNat % pageSize + x * b + b ≤ mappedSize t := by
    have offset : t.addr.toNat % pageSize < 4096 := Nat.mod_lt _ (by decide)
    have place := @Mapped.address d t mapped x 0 (by rw [own]; omega)
    rw [own,Nat.zero_mul,Nat.zero_add] at place
    have last := (addressable.inside x column 0 row _ ⟨b - 1,by omega,rfl⟩).2
    rw [place] at last
    unfold wrap fbVirtualBase at last
    omega
  induction x with
  | zero => exact pixel column (by omega)
  | succ x ih =>
    have before := ih (by omega)
    exact pixel column (by rw [Nat.add_mul,Nat.one_mul]; omega)

/-- Nor does the start of a row. -/
theorem Addressable.first_column (addressable : Addressable d t) (mapped : Mapped d t) {y : Nat} (row : y < d.height) :
    t.addr.toNat % pageSize + y * d.pitch < mappedSize t := by
  have size := mapped.size
  unfold fbMaxMappedSize at size
  obtain ⟨b,two,four,packed,own,_⟩ := mapped.bytes
  have column : 0 < d.width := by
    have some_ := mapped.positive.1
    have same := mapped.width
    omega
  have offset : t.addr.toNat % pageSize < 4096 := Nat.mod_lt _ (by decide)
  have product := (addressable.products 0 column y row).1
  have within := addressable.inside 0 column y row _ ⟨0,by omega,rfl⟩
  unfold pixelAddress at within
  rw [mapped.fb,Nat.zero_mul] at within
  unfold wrap fbVirtualBase at within
  omega

theorem Addressable.fits (addressable : Addressable d t) (mapped : Mapped d t) : t.Fits := by
  have size := mapped.size
  unfold fbMaxMappedSize at size
  obtain ⟨b,two,four,packed,own,tagged⟩ := mapped.bytes
  have some_ := mapped.positive
  have width := mapped.width
  have height := mapped.height
  have offset : t.addr.toNat % pageSize < 4096 := Nat.mod_lt _ (by decide)
  have right := @Addressable.first_row d t addressable mapped (d.width - 1) (by omega)
  rw [own] at right
  constructor
  · by_cases one : t.height = 1
    · exact .inl one
    refine .inr ?_
    rw [tagged]
    by_contra narrow
    -- the pixel of the first row that reaches into the second one
    have second : 1 < d.height := by
      have other : t.height.toNat ≠ 1 := fun same => one (BitVec.eq_of_toNat_eq same)
      omega
    have below := addressable.first_column mapped second
    have inside : d.pitch / b < d.width := by
      rw [Nat.div_lt_iff_lt_mul (by omega),mapped.pitch,width]
      omega
    have split := Nat.div_add_mod' d.pitch b
    have part : d.pitch % b < b := Nat.mod_lt _ (by omega)
    have first := @Mapped.address d t mapped (d.pitch / b) 0 (by rw [own]; omega)
    have next := @Mapped.address d t mapped 0 1 (by omega)
    have both := addressable.apart (d.pitch / b) inside 0 (by omega) 0 (by omega) 1 second
      (wrap (pixelAddress d 0 1 + 0)) ⟨d.pitch % b,by omega,by rw [first,next,own]; congr 1; omega⟩ ⟨0,by omega,rfl⟩
    exact absurd both.2 (by decide)
  · change _ ≤ mappedSize t
    rw [tagged]
    have low := @Addressable.first_column d t addressable mapped (d.height - 1) (by omega)
    have place := @Mapped.address d t mapped (d.width - 1) (d.height - 1) (by rw [own]; omega)
    have last := (addressable.inside (d.width - 1) (by omega) (d.height - 1) (by omega) _ ⟨b - 1,by omega,rfl⟩).2
    have whole : (d.width - 1) * b + b = t.width.toNat * b := by
      rw [← width,← Nat.succ_mul,Nat.succ_eq_add_one,Nat.sub_add_cancel (by omega)]
    rw [place,own] at last
    rw [← height,← mapped.pitch,Nat.mul_comm d.pitch]
    unfold wrap fbVirtualBase pageSize at *
    omega

end Geometry

/-- Every tag with some size that passes the check of the size is taken, with its pages mapped. -/
theorem framebufferInit_takes (image : Image) (m : Mem) (d : Display) {t : FbTag} (accepted : t.accepted = true)
    (given : t.width ≠ 0 ∧ t.height ≠ 0 ∧ t.pitch ≠ 0) (size : mappedSize t ≠ 0 ∧ mappedSize t ≤ fbMaxMappedSize) :
    ∃ d' m',framebufferInit image m d (some t) = some (d',m') ∧ ∀ page < mappedSize t / pageSize,
      mmioEntry image m' (framePage page) = (BitVec.ofNat 64 (t.addr.toNat - t.addr.toNat % pageSize + page * pageSize) &&& pteAddrMask) |||
        (BitVec.ofNat 64 0x3 &&& pteFlagsMask) ||| ptePresent := by
  have few : mappedSize t / pageSize ≤ 2^14 := by
    have small := size.2
    unfold fbMaxMappedSize pageSize at *
    omega
  have pages : (t.addr.toNat - t.addr.toNat % pageSize) % pageSize = 0 := by
    unfold pageSize
    omega
  obtain ⟨m',done,mapped⟩ := @map_pages image _ few _ pages m
  unfold framebufferInit mapFramebuffer
  dsimp only
  rw [if_pos accepted,if_neg (fun none => none.elim given.1 fun none => none.elim given.2.1 given.2.2),
    if_neg (fun none => none.elim size.1 fun large => absurd large (Nat.not_lt.mpr size.2)),done]
  exact ⟨_,m',rfl,mapped⟩

/-- The accepted framebuffers that are addressable are those whose rows do not overlap and whose
size, as far as the code keeps it, covers the last pixel. -/
theorem addressable_iff {image : Image} {m m' : Mem} {d d' : Display} {t : FbTag}
    (done : framebufferInit image m d (some t) = some (d',m')) : Addressable d' t ↔ t.Fits := by
  have mapped := framebufferInit_mapped done
  exact ⟨fun addressable => addressable.fits mapped,mapped.addressable⟩

/-- 1024 by 768 pixels of 32 bits. -/
def usualTag : FbTag := ⟨0xFD000000,4096,1024,768,32,1,16,8,8,8,0,8⟩

theorem addressable_iff_usual : ∃ d' m',framebufferInit smallImage (fun _ _ => 0) highColor (some usualTag) = some (d',m') ∧
    (Addressable d' usualTag ↔ usualTag.Fits) := by
  obtain ⟨d',m',done,_⟩ := framebufferInit_takes smallImage (fun _ _ => 0) highColor (by decide : usualTag.accepted = true)
    (by decide) (by decide)
  exact ⟨d',m',done,addressable_iff done⟩

/-- 640 by 65537 pixels of 32 bits in rows of 65536 bytes: one row is left of the size. -/
def tallTag : FbTag := ⟨0xFD000000,65536,640,65537,32,1,16,8,8,8,0,8⟩

theorem tall_not_addressable : ∃ d' m',framebufferInit smallImage (fun _ _ => 0) highColor (some tallTag) = some (d',m') ∧
    mappedSize tallTag = 65536 ∧ ¬Addressable d' tallTag := by
  obtain ⟨d',m',done,_⟩ := framebufferInit_takes smallImage (fun _ _ => 0) highColor (by decide : tallTag.accepted = true)
    (by decide) (by decide)
  exact ⟨d',m',done,by decide,fun addressable => absurd (addressable.fits (framebufferInit_mapped done)) (by decide)⟩

end LionOS.Video
