import K1K.Disk.Model

/-!
# What is in a file

The contents of a file are the first bytes of its clusters in order. Both reading functions hand
over this and nothing else, whatever sector of the table is in the cache.
-/

namespace K1K.Disk

open K1K.Lib K1K.Loader K1K.Service.Files

variable {profile : Overflow} {dev : Device} {disk : Memory} {geo : Geometry} {fat : Fat}
  {entry : DirEntry} {clusters : List (BitVec 32)} {c : BitVec 32}

/-! ## The volume on the disk -/

def Reads (dev : Device) (disk : Memory) : Prop :=
  ∀ lba count, dev lba count = .ok (disk.read (lba * 512) (count * 512))

/-- A volume whose clusters have numbers that the sector arithmetic can handle. -/
structure Geometry.Sound (geo : Geometry) : Prop where
  sector : geo.bytesPerSector = 512
  positive : 0 < geo.sectorsPerCluster.toNat
  byte : geo.sectorsPerCluster.toNat ≤ 255
  inside : geo.dataStart.toNat + geo.totalClusters.toNat * geo.sectorsPerCluster.toNat < 2 ^ 32

def Geometry.size (geo : Geometry) : Nat := geo.sectorsPerCluster.toNat * 512

def Geometry.cluster (geo : Geometry) (disk : Memory) (c : BitVec 32) : List Byte :=
  disk.read ((geo.dataStart.toNat + (c.toNat - 2) * geo.sectorsPerCluster.toNat) * 512) geo.size

/-- The `c`th of the entries of 12 bits that follow each other from address `table` on: two of them
share three bytes. -/
def twelveBits (disk : Memory) (table c : Nat) : Nat :=
  let byte i := (disk (table + c / 2 * 3 + i)).toNat
  if c % 2 = 0 then byte 0 + 256 * (byte 1 % 16) else byte 1 / 16 + 16 * byte 2

def Geometry.next (geo : Geometry) (disk : Memory) (c : BitVec 32) : Option (BitVec 32) :=
  let table := geo.fatStart.toNat * 512
  match geo.kind with
  | .fat32 =>
    let v := fromLeBytes 32 (disk.read (table + c.toNat * 4) 4) &&& 0x0FFFFFFF
    if v.toNat < 0x0FFFFFF8 then some v else none
  | .fat16 =>
    let v := (fromLeBytes 16 (disk.read (table + c.toNat * 2) 2)).setWidth 32
    if v.toNat < 0xFFF8 then some v else none
  | .fat12 =>
    let v := twelveBits disk table c.toNat
    if v < 0xFF8 then some (BitVec.ofNat 32 v) else none

structure Chain (disk : Memory) (geo : Geometry) (entry : DirEntry) (clusters : List (BitVec 32)) :
    Prop where
  first : entry.size ≠ 0 → clusters[0]? = some (BitVec.ofNat 32 entry.cluster)
  linked : ∀ i c c', clusters[i]? = some c → clusters[i + 1]? = some c' → geo.next disk c = some c'
  inside : ∀ c ∈ clusters, 2 ≤ c.toNat ∧ c.toNat < geo.totalClusters.toNat + 2
  enough : entry.size ≤ clusters.length * geo.size
  u32 : entry.size < 2 ^ 32

def joined (disk : Memory) (geo : Geometry) (clusters : List (BitVec 32)) : List Byte :=
  (clusters.map (geo.cluster disk)).flatten

def contents (disk : Memory) (geo : Geometry) (clusters : List (BitVec 32)) (size : Nat) :
    List Byte :=
  (joined disk geo clusters).take size

def Coherent (disk : Memory) (fat : Fat) : Prop :=
  fat.cached = NOTHING ∨ fat.sector = disk.read (fat.cached * 512) 512

theorem uniform_clusters (geo : Geometry) (disk : Memory) (clusters : List (BitVec 32)) :
    ∀ block ∈ clusters.map (geo.cluster disk), block.length = geo.size := by
  intro block mem
  obtain ⟨c, -, rfl⟩ := List.mem_map.mp mem
  exact disk.length_read _ _

theorem length_joined : (joined disk geo clusters).length = clusters.length * geo.size := by
  rw [joined, length_flatten_uniform (uniform_clusters geo disk clusters), List.length_map]

theorem length_contents (chain : Chain disk geo entry clusters) :
    (contents disk geo clusters entry.size).length = entry.size := by
  rw [contents, List.length_take, length_joined, Nat.min_eq_left chain.enough]

theorem take_drop_joined {j pos n : Nat} (found : clusters[j]? = some c)
    (within : pos + n ≤ geo.size) : ((joined disk geo clusters).drop (j * geo.size + pos)).take n =
      ((geo.cluster disk c).drop pos).take n :=
  take_drop_flatten (uniform_clusters geo disk clusters) (by rw [List.getElem?_map, found]; rfl)
    within

theorem next_piece {j pos n left : Nat} (found : clusters[j]? = some c)
    (within : pos + n ≤ geo.size) (some : n ≤ left) :
    (((geo.cluster disk c).drop pos).take n).length = n ∧
      ((joined disk geo clusters).drop (j * geo.size + pos)).take left =
        ((geo.cluster disk c).drop pos).take n ++
          ((joined disk geo clusters).drop (j * geo.size + pos + n)).take (left - n) := by
  have sum : left = n + (left - n) := by omega
  constructor
  · rw [List.length_take, List.length_drop, Geometry.cluster, disk.length_read]
    omega
  · rw [sum, List.take_add, List.drop_drop, take_drop_joined found within, Nat.add_sub_cancel_left]

/-- A build with overflow checks only mounts such volumes, and starts without a
sector in the cache. -/
theorem mount_sound (mounted : (mount .panics dev).run = some (.ok fat)) :
    fat.geo.Sound ∧ fat.cached = NOTHING := by
  unfold mount at mounted
  split at mounted
  next => cases mounted
  next bs _ =>
    simp only [Checked.bind_ok_iff, Checked.refuseIf_ok_iff, Checked.lift_ok_iff] at mounted
    obtain ⟨_, -, _, geometry, rootBytes, -, tables, -, rootStart, -, dataStart, -, dataSectors,
      subtracted, gave⟩ := mounted
    cases gave
    rw [not_or, not_or, not_not] at geometry
    obtain ⟨below, rfl⟩ := Overflow.sub_some subtracted
    generalize (if u16At bs 19 ≠ 0 then u16At bs 19 else u32At bs 32) = total at below
    have width : (byteAt bs 13).toNat ≤ 255 := by
      have byte := (bs.getD 13 0).isLt
      rw [byteAt, BitVec.toNat_setWidth]
      omega
    have pos : 0 < (byteAt bs 13).toNat := by
      refine Nat.pos_of_ne_zero fun zero => geometry.2.1 ?_
      exact BitVec.eq_of_toNat_eq zero
    have quotient : ((total - dataStart) / byteAt bs 13).toNat * (byteAt bs 13).toNat ≤
        total.toNat - dataStart.toNat := by
      rw [BitVec.toNat_udiv, BitVec.toNat_sub_of_le below]
      exact Nat.div_mul_le_self _ _
    have bound := total.isLt
    refine ⟨⟨geometry.1, pos, width, ?_⟩, rfl⟩
    simp only
    omega

theorem mount_of_panics (profile : Overflow) (mounted : (mount .panics dev).run = some (.ok fat)) :
    (mount profile dev).run = some (.ok fat) := by
  unfold mount at mounted ⊢
  split at mounted
  next => cases mounted
  simp only [Checked.bind_ok_iff, Checked.refuseIf_ok_iff, Checked.lift_ok_iff] at mounted ⊢
  obtain ⟨checked, signed, checked', geometry, rootBytes, multiplied, tables, multiplied',
    rootStart, added, dataStart, added', dataSectors, subtracted, gave⟩ := mounted
  exact ⟨checked, signed, checked', geometry, rootBytes, profile.mul_of_panics multiplied, tables,
    profile.mul_of_panics multiplied', rootStart, profile.add_of_panics added, dataStart,
    profile.add_of_panics added', dataSectors, profile.sub_of_panics subtracted, gave⟩

/-! ## The table of clusters -/

theorem take_drop_read (mem : Memory) {addr count i n : Nat} (le : i + n ≤ count) :
    ((mem.read addr count).drop i).take n = mem.read (addr + i) n := by
  obtain ⟨rest, rfl⟩ := Nat.exists_eq_add_of_le le
  rw [Nat.add_assoc, mem.read_add, List.drop_left' (mem.length_read _ _), mem.read_add,
    List.take_left' (mem.length_read _ _)]

theorem getD_read (mem : Memory) {addr count i : Nat} (lt : i < count) :
    (mem.read addr count).getD i 0 = mem (addr + i) := by
  simp [Memory.read, lt]

theorem lt_nothing {lba : Nat} (small : lba < 2 ^ 40) : lba < NOTHING :=
  Nat.lt_trans small (by decide)

theorem fatSector_reads (reads : Reads dev disk) (coherent : Coherent disk fat) {lba : Nat}
    (small : lba < NOTHING) : ∃ fat', fatSector dev lba fat = (.ok (), fat') ∧ fat'.geo = fat.geo ∧
      fat'.sector = disk.read (lba * 512) 512 ∧ Coherent disk fat' := by
  unfold fatSector
  split
  next =>
    rw [reads]
    exact ⟨_, rfl, rfl, by rw [Nat.one_mul], .inr (by rw [Nat.one_mul])⟩
  next eq =>
    rw [not_not] at eq
    rcases coherent with empty | held
    · omega
    · exact ⟨fat, rfl, rfl, eq ▸ held, .inr held⟩

/-- The part of `next_cluster` that is about the tables with whole-byte entries. -/
theorem wideEntry_reads (reads : Reads dev disk) (coherent : Coherent disk fat) {off limit n : Nat}
    {entry : List Byte → BitVec 32} (small : off < 2 ^ 40) (within : off % 512 + n ≤ 512) :
    ∃ fat', wideEntry dev off n limit entry fat =
        (.ok (if (entry (disk.read (fat.geo.fatStart.toNat * 512 + off) n)).toNat < limit then
          some (entry (disk.read (fat.geo.fatStart.toNat * 512 + off) n)) else none), fat') ∧
      fat'.geo = fat.geo ∧ Coherent disk fat' := by
  have start := fat.geo.fatStart.isLt
  have lba : fat.geo.fatStart.toNat + off / 512 < NOTHING := lt_nothing (by omega)
  obtain ⟨fat', found, geo, sector, coherent'⟩ := fatSector_reads reads coherent lba
  refine ⟨fat', ?_, geo, coherent'⟩
  have place : (fat.geo.fatStart.toNat + off / 512) * 512 + off % 512 =
      fat.geo.fatStart.toNat * 512 + off := by omega
  have eq : (fat'.sector.drop (off % 512)).take n =
      disk.read (fat.geo.fatStart.toNat * 512 + off) n := by
    rw [sector, take_drop_read disk within, place]
  simp only [wideEntry, found, eq]

theorem packed_eq (disk : Memory) (table : Nat) (c : BitVec 32) :
    packed c (disk (table + c.toNat * 3 / 2)) (disk (table + c.toNat * 3 / 2 + 1)) =
      if twelveBits disk table c.toNat < 0xFF8 then
        some (BitVec.ofNat 32 (twelveBits disk table c.toNat)) else none := by
  rw [packed]
  generalize low : disk (table + c.toNat * 3 / 2) = lo
  generalize high : disk (table + c.toNat * 3 / 2 + 1) = hi
  have loLt := lo.isLt
  have hiLt := hi.isLt
  have shifted : (hi.setWidth 32 <<< 8 : BitVec 32).toNat = 2 ^ 8 * hi.toNat := by
    rw [BitVec.toNat_shiftLeft, BitVec.toNat_setWidth, Nat.shiftLeft_eq]
    omega
  have raw : (lo.setWidth 32 ||| hi.setWidth 32 <<< 8 : BitVec 32).toNat =
      2 ^ 8 * hi.toNat + lo.toNat := by
    rw [BitVec.toNat_or, shifted, Nat.or_comm, BitVec.toNat_setWidth, Nat.mod_eq_of_lt (by omega),
      Nat.two_pow_add_eq_or_of_lt loLt]
  have parity : (c &&& 1).toNat = c.toNat % 2 := by rw [BitVec.toNat_and, ← Nat.and_one_is_mod]; rfl
  have value : (if c &&& 1 = 0 then (lo.setWidth 32 ||| hi.setWidth 32 <<< 8 : BitVec 32) &&& 0xFFF
      else (lo.setWidth 32 ||| hi.setWidth 32 <<< 8) >>> 4).toNat =
      twelveBits disk table c.toNat := by
    rw [twelveBits]
    by_cases even : c.toNat % 2 = 0
    · have place : table + c.toNat * 3 / 2 = table + c.toNat / 2 * 3 := by omega
      rw [place] at low high
      have zero : c &&& 1 = 0 := BitVec.eq_of_toNat_eq (by rw [parity, even]; rfl)
      rw [if_pos zero, if_pos even, BitVec.toNat_and, raw]
      simp only [Nat.add_zero, low, high]
      exact (Nat.and_two_pow_sub_one_eq_mod _ 12).trans (by omega)
    · have place : table + c.toNat * 3 / 2 = table + c.toNat / 2 * 3 + 1 := by omega
      rw [place] at low high
      rw [if_neg fun zero => even (by rw [← parity, zero]; rfl), if_neg even,
        BitVec.toNat_ushiftRight, raw, Nat.shiftRight_eq_div_pow]
      simp only [low, high]
      omega
  simp only [value]
  rw [← value, BitVec.ofNat_toNat, BitVec.setWidth_eq]

theorem nextCluster_reads (reads : Reads dev disk) (coherent : Coherent disk fat) (c : BitVec 32) :
    ∃ fat', nextCluster dev c fat = (.ok (fat.geo.next disk c), fat') ∧ fat'.geo = fat.geo ∧
      Coherent disk fat' := by
  have small := c.isLt
  have start := fat.geo.fatStart.isLt
  unfold nextCluster Geometry.next
  cases fat.geo.kind with
  | fat32 | fat16 => exact wideEntry_reads reads coherent (by omega) (by omega)
  | fat12 =>
    simp only [← packed_eq]
    generalize offset : c.toNat * 3 / 2 = off
    have place : (fat.geo.fatStart.toNat + off / 512) * 512 + off % 512 =
        fat.geo.fatStart.toNat * 512 + off := by omega
    have after : off % 512 = 511 → (fat.geo.fatStart.toNat + off / 512 + 1) * 512 + 0 =
        fat.geo.fatStart.toNat * 512 + off + 1 := by omega
    have lba : fat.geo.fatStart.toNat + off / 512 < NOTHING := lt_nothing (by omega)
    obtain ⟨fat', found, geo, sector, coherent'⟩ := fatSector_reads reads coherent lba
    have lo : fat'.sector.getD (off % 512) 0 = disk (fat.geo.fatStart.toNat * 512 + off) := by
      rw [sector, getD_read disk (Nat.mod_lt _ (by decide)), place]
    simp only [found, lo]
    split
    next last =>
      have lba' : fat'.geo.fatStart.toNat + off / 512 + 1 < NOTHING :=
        lt_nothing (by rw [geo]; omega)
      obtain ⟨fat'', found', geo', sector', coherent''⟩ := fatSector_reads reads coherent' lba'
      have hi : fat''.sector.getD 0 0 = disk (fat.geo.fatStart.toNat * 512 + off + 1) := by
        rw [sector', getD_read disk (by decide), geo, after last]
      simp only [found', hi]
      exact ⟨fat'', rfl, geo'.trans geo, coherent''⟩
    next within =>
      have hi : fat'.sector.getD (off % 512 + 1) 0 =
          disk (fat.geo.fatStart.toNat * 512 + off + 1) := by
        rw [sector, getD_read disk (by omega), ← Nat.add_assoc, place]
      simp only [hi]
      exact ⟨fat', rfl, geo, coherent'⟩

/-! ## Clusters -/

theorem readSectors_reads (reads : Reads dev disk) {lba sectors fuel done : Nat}
    (enough : sectors - done ≤ fuel) (out : List Byte) : readSectors dev lba sectors fuel done out =
      .ok (out ++ disk.read ((lba + done) * 512) ((sectors - done) * 512)) := by
  induction fuel generalizing done out with
  | zero =>
    have finished : sectors - done = 0 := Nat.le_zero.mp enough
    simp [readSectors, finished, Memory.read]
  | succ fuel ih =>
    rw [readSectors]
    split
    next more =>
      have split : (sectors - done) * 512 =
          min (sectors - done) 16 * 512 + (sectors - (done + min (sectors - done) 16)) * 512 := by
        omega
      have place : (lba + (done + min (sectors - done) 16)) * 512 =
          (lba + done) * 512 + min (sectors - done) 16 * 512 := by ring
      simp only [reads (lba + done)]
      rw [ih (by omega), List.append_assoc, place, split, ← Memory.read_add]
    next finished =>
      have nothing : sectors - done = 0 := by omega
      simp [nothing, Memory.read]

theorem clusterBytes_eq (profile : Overflow) (sound : geo.Sound) :
    geo.clusterBytes profile = some geo.size := by
  have byte := sound.byte
  have sector : geo.bytesPerSector.toNat = 512 := by rw [sound.sector]; rfl
  have fits : geo.sectorsPerCluster.toNat * geo.bytesPerSector.toNat < 2 ^ 32 := by
    rw [sector]
    omega
  rw [Geometry.clusterBytes, profile.mul_eq fits, Option.map_some, BitVec.toNat_mul, sector,
    Nat.mod_eq_of_lt (by omega)]
  rfl

theorem clusterLba_eq (profile : Overflow) (sound : geo.Sound)
    (lt : 2 ≤ c.toNat ∧ c.toNat < geo.totalClusters.toNat + 2) : geo.clusterLba profile c =
      some (geo.dataStart.toNat + (c.toNat - 2) * geo.sectorsPerCluster.toNat) := by
  have area := sound.inside
  have index : (c - 2).toNat = c.toNat - 2 := BitVec.toNat_sub_of_le lt.1
  have below : (c.toNat - 2) * geo.sectorsPerCluster.toNat ≤
      geo.totalClusters.toNat * geo.sectorsPerCluster.toNat :=
    Nat.mul_le_mul_right _ (by omega)
  have offset : ((c - 2) * geo.sectorsPerCluster).toNat =
      (c.toNat - 2) * geo.sectorsPerCluster.toNat := by
    rw [BitVec.toNat_mul, index, Nat.mod_eq_of_lt (by omega)]
  have subtracted := profile.sub_eq (show (2 : BitVec 32).toNat ≤ c.toNat from lt.1)
  have multiplied := profile.mul_eq
    (show (c - 2).toNat * geo.sectorsPerCluster.toNat < 2 ^ 32 by rw [index]; omega)
  have added := profile.add_eq
    (show geo.dataStart.toNat + ((c - 2) * geo.sectorsPerCluster).toNat < 2 ^ 32 by
      rw [offset]; omega)
  have total : (geo.dataStart + (c - 2) * geo.sectorsPerCluster).toNat =
      geo.dataStart.toNat + (c.toNat - 2) * geo.sectorsPerCluster.toNat := by
    rw [BitVec.toNat_add, offset, Nat.mod_eq_of_lt (by omega)]
  rw [Geometry.clusterLba, subtracted, Option.bind_eq_bind, Option.bind_some, multiplied,
    Option.bind_some, added, Option.bind_some, total]
  rfl

theorem readCluster_reads (reads : Reads dev disk) (sound : fat.geo.Sound)
    (lt : 2 ≤ c.toNat ∧ c.toNat < fat.geo.totalClusters.toNat + 2) :
    readCluster profile dev c fat = some (.ok (fat.geo.cluster disk c)) := by
  rw [readCluster, clusterLba_eq profile sound lt, Option.map_some,
    readSectors_reads reads (Nat.sub_le _ _)]
  simp [Geometry.cluster, Geometry.size]

/-! ## Reading at an offset -/

structure Ready (disk : Memory) (geo : Geometry) (fat : Fat) : Prop where
  geo_eq : fat.geo = geo
  coherent : Coherent disk fat

theorem Ready.next (reads : Reads dev disk) (ready : Ready disk geo fat) (c : BitVec 32) :
    ∃ fat', nextCluster dev c fat = (.ok (geo.next disk c), fat') ∧ Ready disk geo fat' := by
  obtain ⟨fat', found, eq, coherent⟩ := nextCluster_reads reads ready.coherent c
  rw [ready.geo_eq] at found eq
  exact ⟨fat', found, eq, coherent⟩

theorem Ready.cluster (reads : Reads dev disk) (sound : geo.Sound) (ready : Ready disk geo fat)
    (chain : Chain disk geo entry clusters) {j : Nat} (here : clusters[j]? = some c) :
    readCluster profile dev c fat = some (.ok (geo.cluster disk c)) := by
  have lt := chain.inside c (List.mem_of_getElem? here)
  rw [← ready.geo_eq] at sound lt ⊢
  exact readCluster_reads reads sound lt

theorem Chain.step (chain : Chain disk geo entry clusters) {j : Nat} (here : clusters[j]? = some c)
    (more : j + 1 < clusters.length) :
    ∃ c', clusters[j + 1]? = some c' ∧ geo.next disk c = some c' := by
  have there := List.getElem?_eq_getElem more
  exact ⟨_, there, chain.linked j c _ here there⟩

theorem walk_reads (reads : Reads dev disk) (chain : Chain disk geo entry clusters)
    (positive : 0 < geo.size) {fuel pos j : Nat} (ready : Ready disk geo fat)
    (here : clusters[j]? = some c) (enough : pos < fuel)
    (reach : j + pos / geo.size < clusters.length) :
    ∃ c' fat', walk dev geo.size fuel pos c fat = some (.ok (pos % geo.size, c'), fat') ∧
      clusters[j + pos / geo.size]? = some c' ∧ Ready disk geo fat' := by
  induction fuel generalizing pos j c fat with
  | zero => omega
  | succ fuel ih =>
    rw [walk]
    split
    next beyond =>
      have quotient : pos / geo.size = (pos - geo.size) / geo.size + 1 :=
        Nat.div_eq_sub_div positive beyond
      have remainder : pos % geo.size = (pos - geo.size) % geo.size := Nat.mod_eq_sub_mod beyond
      have shift : j + 1 + (pos - geo.size) / geo.size = j + pos / geo.size := by
        rw [quotient, Nat.add_assoc, Nat.add_comm 1]
      rw [← shift] at reach ⊢
      obtain ⟨next, there, linked⟩ :=
        chain.step here (Nat.lt_of_le_of_lt (Nat.le_add_right _ _) reach)
      obtain ⟨fat', found, ready'⟩ := ready.next reads c
      rw [linked] at found
      simp only [found]
      obtain ⟨c', fat'', walked, found', ready''⟩ :=
        ih ready' there (by omega) reach
      exact ⟨c', fat'', by rw [walked, remainder], found', ready''⟩
    next within =>
      rw [Nat.not_le] at within
      refine ⟨c, fat, by rw [Nat.mod_eq_of_lt within], ?_, ready⟩
      rw [Nat.div_eq_of_lt within, Nat.add_zero]
      exact here

theorem splice_eq {out piece : List Byte} {done : Nat} (fits : done + piece.length ≤ out.length) :
    splice out done piece = some (patch out done piece) :=
  if_pos fits

theorem copyLoop_reads (profile : Overflow) (reads : Reads dev disk) (sound : geo.Sound)
    (chain : Chain disk geo entry clusters) {want fuel pos j done : Nat} {out : List Byte}
    (ready : Ready disk geo fat) (here : clusters[j]? = some c) (within : pos < geo.size)
    (enough : want - done < fuel) (progress : done ≤ want) (room : want ≤ out.length)
    (reach : j * geo.size + pos + (want - done) ≤ clusters.length * geo.size) :
    ∃ fat', copyLoop profile dev geo.size want fuel pos c done out fat =
        some (.ok want, patch out done
          (((joined disk geo clusters).drop (j * geo.size + pos)).take (want - done)), fat') ∧
      Ready disk geo fat' := by
  induction fuel generalizing pos j c done out fat with
  | zero => omega
  | succ fuel ih =>
    rw [copyLoop]
    split
    next more =>
      simp only [ready.cluster reads sound chain here]
      generalize count : min (want - done) (geo.size - pos) = n
      obtain ⟨size, whole⟩ := next_piece here (show pos + n ≤ geo.size by omega)
        (show n ≤ want - done by omega)
      generalize ((geo.cluster disk c).drop pos).take n = bytes at size whole
      rw [Nat.sub_sub] at whole
      rw [splice_eq (by omega), whole, ← patch_patch (by omega), size]
      simp only
      split
      next more' =>
        have filled : j * geo.size + pos + n = (j + 1) * geo.size + 0 := by
          rw [Nat.succ_mul]
          omega
        have another : j + 1 < clusters.length := by
          refine Nat.lt_of_mul_lt_mul_right (a := geo.size) ?_
          omega
        obtain ⟨next, there, linked⟩ := chain.step here another
        obtain ⟨fat', found, ready'⟩ := ready.next reads c
        rw [linked] at found
        simp only [found, filled]
        exact ih ready' there (Nat.lt_of_le_of_lt (Nat.zero_le _) within)
          (by omega) (by omega) (by rw [length_patch (by omega)]; exact room) (by omega)
      next last =>
        have all : done + n = want := by omega
        have nothing : want - (done + n) = 0 := by omega
        have room' : want ≤ (patch out done bytes).length := by
          rw [length_patch (by omega)]
          exact room
        obtain ⟨fat', copied, ready'⟩ := ih ready here
          (Nat.lt_of_le_of_lt (Nat.zero_le _) within) (by omega) (le_of_eq all) room' (by omega)
        exact ⟨fat', by rw [copied, nothing, List.take_zero, List.take_zero], ready'⟩
    next finished =>
      have all : want - done = 0 := by omega
      have last : done = want := by omega
      exact ⟨fat, by rw [all, List.take_zero, patch_nil, last], ready⟩

theorem take_drop_contents (size offset n : Nat) :
    ((contents disk geo clusters size).drop offset).take n =
      ((joined disk geo clusters).drop offset).take (min n (size - offset)) := by
  rw [contents, List.drop_take, List.take_take]

theorem readAt_reads (profile : Overflow) (reads : Reads dev disk) (sound : geo.Sound)
    (chain : Chain disk geo entry clusters) (ready : Ready disk geo fat) (offset : Nat)
    {scratch : Nat} (large : geo.size ≤ scratch) (out : List Byte) :
    ∃ fat', readAt profile dev entry offset scratch out fat =
        some (.ok (((contents disk geo clusters entry.size).drop offset).take out.length).length,
          patch out 0 (((contents disk geo clusters entry.size).drop offset).take out.length),
          fat') ∧ Ready disk geo fat' := by
  have size := length_contents chain
  rw [readAt]
  split
  next past =>
    have nothing : ((contents disk geo clusters entry.size).drop offset).take out.length = [] := by
      rcases past with past | empty
      · rw [List.drop_of_length_le (by omega), List.take_nil]
      · rw [empty, List.take_zero]
    exact ⟨fat, by rw [nothing, patch_nil]; rfl, ready⟩
  next asked =>
    rw [not_or, Nat.not_le] at asked
    have pos : 0 < geo.size := Nat.mul_pos sound.positive (by decide)
    have enough := chain.enough
    have reach : 0 + offset / geo.size < clusters.length := by
      rw [Nat.zero_add, Nat.div_lt_iff_lt_mul pos]
      omega
    obtain ⟨c, fat', walked, here, ready'⟩ := walk_reads reads chain pos ready
      (chain.first (by omega)) (Nat.lt_succ_self offset) reach
    have place : (0 + offset / geo.size) * geo.size + offset % geo.size = offset := by
      rw [Nat.zero_add, Nat.div_add_mod']
    generalize wanted : min out.length (entry.size - offset) = want
    obtain ⟨fat'', copied, ready''⟩ := copyLoop_reads profile reads sound chain ready' here
      (Nat.mod_lt _ pos) (Nat.lt_succ_self (want - 0)) (Nat.zero_le want)
      (show want ≤ out.length by omega) (by rw [place]; omega)
    rw [place] at copied
    refine ⟨fat'', ?_, ready''⟩
    have length : (((joined disk geo clusters).drop offset).take want).length = want := by
      rw [List.length_take, List.length_drop, length_joined]
      omega
    simp only [ready.geo_eq, clusterBytes_eq profile sound, if_neg (Nat.not_lt.mpr large), walked,
      wanted, take_drop_contents, length]
    exact copied

/-! ## Reading a whole file -/

theorem readFileLoop_reads (profile : Overflow) (reads : Reads dev disk) (sound : geo.Sound)
    (chain : Chain disk geo entry clusters) {fuel j copied : Nat} {out : List Byte}
    (ready : Ready disk geo fat)
    (here : copied < entry.size → copied = j * geo.size ∧ clusters[j]? = some c)
    (enough : entry.size - copied < fuel) (progress : copied ≤ entry.size)
    (room : entry.size ≤ out.length) :
    ∃ fat', readFileLoop profile dev geo.size entry.size fuel c copied out fat =
        some (.ok entry.size, patch out copied
          (((joined disk geo clusters).drop copied).take (entry.size - copied)), fat') ∧
      Ready disk geo fat' := by
  induction fuel generalizing j c copied out fat with
  | zero => omega
  | succ fuel ih =>
    rw [readFileLoop]
    split
    next more =>
      obtain ⟨place, found⟩ := here more.1
      have room' := chain.enough
      simp only [ready.cluster reads sound chain found]
      generalize count : min (entry.size - copied) geo.size = n
      obtain ⟨size, whole⟩ := next_piece found (show 0 + n ≤ geo.size by omega)
        (show n ≤ entry.size - copied by omega)
      rw [List.drop_zero] at size whole
      generalize (geo.cluster disk c).take n = bytes at size whole
      rw [Nat.add_zero, ← place, Nat.sub_sub] at whole
      rw [splice_eq (by omega), whole, ← patch_patch (by omega), size]
      obtain ⟨fat', next, ready'⟩ := ready.next reads c
      have onward : copied + n < entry.size → copied + n = (j + 1) * geo.size ∧
          ∃ c', clusters[j + 1]? = some c' ∧ geo.next disk c = some c' := by
        intro left
        have filled : copied + n = (j + 1) * geo.size := by
          rw [Nat.succ_mul]
          omega
        exact ⟨filled, chain.step found (Nat.lt_of_mul_lt_mul_right (a := geo.size) (by omega))⟩
      simp only [next]
      cases linked : geo.next disk c with
      | none =>
        have all : copied + n = entry.size := by
          by_contra left
          obtain ⟨-, c', -, other⟩ := onward (by omega)
          rw [linked] at other
          simp at other
        refine ⟨fat', ?_, ready'⟩
        simp only [all, Nat.sub_self, List.take_zero, patch_nil]
      | some c' =>
        have here' : copied + n < entry.size →
            copied + n = (j + 1) * geo.size ∧ clusters[j + 1]? = some c' := by
          intro left
          obtain ⟨filled, c'', there, eq⟩ := onward left
          rw [linked] at eq
          cases eq
          exact ⟨filled, there⟩
        have wide : entry.size ≤ (patch out copied bytes).length := by
          rw [length_patch (by omega)]
          exact room
        have nonempty : 0 < geo.size := Nat.mul_pos sound.positive (by decide)
        exact ih ready' here' (by omega) (by omega) wide
    next finished =>
      have all : copied = entry.size := by
        by_contra left
        obtain ⟨-, found⟩ := here (by omega)
        exact finished ⟨by omega, (chain.inside c (List.mem_of_getElem? found)).1⟩
      exact ⟨fat, by simp [all], ready⟩

theorem readFile_reads (profile : Overflow) (reads : Reads dev disk) (sound : geo.Sound)
    (chain : Chain disk geo entry clusters) (ready : Ready disk geo fat) {scratch : Nat}
    (large : geo.size ≤ scratch) {out : List Byte} (room : entry.size ≤ out.length) :
    ∃ fat', readFile profile dev entry scratch out fat =
        some (.ok entry.size, patch out 0 (contents disk geo clusters entry.size), fat') ∧
      Ready disk geo fat' := by
  have here : 0 < entry.size → 0 = 0 * geo.size ∧
      clusters[0]? = some (BitVec.ofNat 32 entry.cluster) := fun more =>
    ⟨(Nat.zero_mul _).symm, chain.first (Nat.ne_of_gt more)⟩
  obtain ⟨fat', copied, ready'⟩ := readFileLoop_reads profile reads sound chain ready here
    (Nat.lt_succ_self _) (Nat.zero_le _) room
  refine ⟨fat', ?_, ready'⟩
  rw [readFile, ready.geo_eq, clusterBytes_eq profile sound]
  simp only [Nat.not_lt.mpr large, false_and, if_false]
  exact copied

end K1K.Disk
