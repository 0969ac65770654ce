import K1K.Lib.Blocks
import K1K.Lib.Text
import K1K.Loader.Elf
import K1K.Service.Files

/-!
# The FAT volume

`mount`, the cluster chain and the reading functions of `user/svc/fs/src/fat.rs`, over a device
that reads sectors or fails. Of the scratch memory only the size is kept. Loops have fuel;
`none` is a panic or used-up fuel.
-/

namespace K1K.Disk

open K1K.Lib K1K.Loader K1K.Service.Files

inductive FatKind where
  | fat12
  | fat16
  | fat32
  deriving DecidableEq, Repr

/-- `BlockDevice::read`: so many sectors from one on. -/
abbrev Device : Type := Nat → Nat → Except Unit (List Byte)

structure Geometry where
  kind : FatKind
  bytesPerSector : BitVec 32
  sectorsPerCluster : BitVec 32
  fatStart : BitVec 32
  rootStart : BitVec 32
  rootEntries : BitVec 32
  dataStart : BitVec 32
  rootCluster : BitVec 32
  totalClusters : BitVec 32
  deriving DecidableEq, Repr

structure Fat where
  geo : Geometry
  sector : List Byte
  cached : Nat
  deriving DecidableEq, Repr

def NOTHING : Nat := 2 ^ 64 - 1

/-! ## Mounting -/

def u16At (bytes : List Byte) (off : Nat) : BitVec 32 :=
  (fromLeBytes 16 ((bytes.drop off).take 2)).setWidth 32

def u32At (bytes : List Byte) (off : Nat) : BitVec 32 := fromLeBytes 32 ((bytes.drop off).take 4)

def byteAt (bytes : List Byte) (off : Nat) : BitVec 32 := (bytes.getD off 0).setWidth 32

def mount (profile : Overflow) (dev : Device) : Checked Text Fat :=
  match dev 0 1 with
  | .error _ => throw "cannot read boot sector".toList
  | .ok bs => do
    Checked.refuseIf (byteAt bs 510 ≠ 0x55 ∨ byteAt bs 511 ≠ 0xAA) "no boot signature".toList
    let bytesPerSector := u16At bs 11
    let sectorsPerCluster := byteAt bs 13
    let fats := byteAt bs 16
    Checked.refuseIf (bytesPerSector ≠ 512 ∨ sectorsPerCluster = 0 ∨ fats = 0)
      "unsupported geometry".toList
    let total := if u16At bs 19 ≠ 0 then u16At bs 19 else u32At bs 32
    let fatSize := if u16At bs 22 ≠ 0 then u16At bs 22 else u32At bs 36
    let rootBytes ← liftM (profile.mul (u16At bs 17) 32)
    let rootSectors := BitVec.ofNat 32 ((rootBytes.toNat + 511) / 512)
    let tables ← liftM (profile.mul fats fatSize)
    let rootStart ← liftM (profile.add (u16At bs 14) tables)
    let dataStart ← liftM (profile.add rootStart rootSectors)
    let dataSectors ← liftM (profile.sub total dataStart)
    let totalClusters := dataSectors / sectorsPerCluster
    let kind : FatKind := if u16At bs 22 = 0 then .fat32
      else if totalClusters.toNat < 4085 then .fat12 else .fat16
    let rootCluster := if kind = .fat32 then u32At bs 44 else 0
    return ⟨⟨kind, bytesPerSector, sectorsPerCluster, u16At bs 14, rootStart, u16At bs 17,
      dataStart, rootCluster, totalClusters⟩, List.replicate 512 0, NOTHING⟩

/-! ## The chain of clusters -/

def Geometry.clusterBytes (profile : Overflow) (geo : Geometry) : Option Nat :=
  (profile.mul geo.sectorsPerCluster geo.bytesPerSector).map BitVec.toNat

def Geometry.clusterLba (profile : Overflow) (geo : Geometry) (cluster : BitVec 32) :
    Option Nat := do
  let index ← profile.sub cluster 2
  let offset ← profile.mul index geo.sectorsPerCluster
  let lba ← profile.add geo.dataStart offset
  return lba.toNat

def fatSector (dev : Device) (lba : Nat) (fat : Fat) : Except Unit Unit × Fat :=
  if fat.cached ≠ lba then
    match dev lba 1 with
    | .error e => (.error e, fat)
    | .ok bytes => (.ok (), { fat with sector := bytes, cached := lba })
  else (.ok (), fat)

/-- What the 32- and 16-bit tables have in common: find the entry of so many bytes,
then tell whether it is the end of the chain. -/
def wideEntry (dev : Device) (off count limit : Nat) (entry : List Byte → BitVec 32) (fat : Fat) :
    Except Unit (Option (BitVec 32)) × Fat :=
  match fatSector dev (fat.geo.fatStart.toNat + off / 512) fat with
  | (.error e, fat) => (.error e, fat)
  | (.ok (), fat) =>
    let v := entry ((fat.sector.drop (off % 512)).take count)
    (.ok (if v.toNat < limit then some v else none), fat)

def packed (cluster : BitVec 32) (lo hi : Byte) : Option (BitVec 32) :=
  let raw : BitVec 32 := lo.setWidth 32 ||| hi.setWidth 32 <<< 8
  let v := if cluster &&& 1 = 0 then raw &&& 0xFFF else raw >>> 4
  if v.toNat < 0xFF8 then some v else none

def nextCluster (dev : Device) (cluster : BitVec 32) (fat : Fat) :
    Except Unit (Option (BitVec 32)) × Fat :=
  match fat.geo.kind with
  | .fat32 =>
    wideEntry dev (cluster.toNat * 4) 4 0x0FFFFFF8
      (fun bytes => fromLeBytes 32 bytes &&& 0x0FFFFFFF) fat
  | .fat16 =>
    wideEntry dev (cluster.toNat * 2) 2 0xFFF8
      (fun bytes => (fromLeBytes 16 bytes).setWidth 32) fat
  | .fat12 =>
    let off := cluster.toNat * 3 / 2
    match fatSector dev (fat.geo.fatStart.toNat + off / 512) fat with
    | (.error e, fat) => (.error e, fat)
    | (.ok (), fat) =>
      let lo := fat.sector.getD (off % 512) 0
      -- The second byte may live in the next sector.
      if off % 512 = 511 then
        match fatSector dev (fat.geo.fatStart.toNat + off / 512 + 1) fat with
        | (.error e, fat) => (.error e, fat)
        | (.ok (), fat) => (.ok (packed cluster lo (fat.sector.getD 0 0)), fat)
      else (.ok (packed cluster lo (fat.sector.getD (off % 512 + 1) 0)), fat)

/-! ## Reading -/

def readSectors (dev : Device) (lba sectors : Nat) : Nat → Nat → List Byte → Except Unit (List Byte)
  | 0, _, out => .ok out
  | fuel + 1, done, out =>
    if done < sectors then
      let n := min (sectors - done) 16
      match dev (lba + done) n with
      | .error e => .error e
      | .ok bytes => readSectors dev lba sectors fuel (done + n) (out ++ bytes)
    else .ok out

section Reading

variable (profile : Overflow) (dev : Device)

def readCluster (cluster : BitVec 32) (fat : Fat) : Option (Except Unit (List Byte)) :=
  (fat.geo.clusterLba profile cluster).map fun lba =>
    readSectors dev lba fat.geo.sectorsPerCluster.toNat fat.geo.sectorsPerCluster.toNat 0 []

def splice (out : List Byte) (done : Nat) (piece : List Byte) : Option (List Byte) :=
  if done + piece.length ≤ out.length then some (patch out done piece) else none

def readFileLoop (cb size : Nat) :
    Nat → BitVec 32 → Nat → List Byte → Fat → Option (Except Unit Nat × List Byte × Fat)
  | 0, _, _, _, _ => none
  | fuel + 1, cluster, copied, out, fat =>
    if copied < size ∧ 2 ≤ cluster.toNat then
      match readCluster profile dev cluster fat with
      | none => none
      | some (.error e) => some (.error e, out, fat)
      | some (.ok bytes) =>
        let n := min (size - copied) cb
        match splice out copied (bytes.take n) with
        | none => none
        | some out =>
          match nextCluster dev cluster fat with
          | (.error e, fat) => some (.error e, out, fat)
          | (.ok none, fat) => some (.ok (copied + n), out, fat)
          | (.ok (some next), fat) => readFileLoop cb size fuel next (copied + n) out fat
    else some (.ok copied, out, fat)

def readFile (entry : DirEntry) (scratch : Nat) (out : List Byte) (fat : Fat) :
    Option (Except Unit Nat × List Byte × Fat) :=
  match fat.geo.clusterBytes profile with
  | none => none
  | some cb =>
    if scratch < cb ∧ 0 < entry.size ∧ 2 ≤ entry.cluster then none
    else
      readFileLoop profile dev cb entry.size (entry.size + 1) (BitVec.ofNat 32 entry.cluster) 0 out
        fat

def walk (cb : Nat) : Nat → Nat → BitVec 32 → Fat → Option (Except Unit (Nat × BitVec 32) × Fat)
  | 0, _, _, _ => none
  | fuel + 1, pos, cluster, fat =>
    if cb ≤ pos then
      match nextCluster dev cluster fat with
      | (.error e, fat) => some (.error e, fat)
      | (.ok none, fat) => some (.error (), fat)
      | (.ok (some next), fat) => walk cb fuel (pos - cb) next fat
    else some (.ok (pos, cluster), fat)

def copyLoop (cb want : Nat) :
    Nat → Nat → BitVec 32 → Nat → List Byte → Fat → Option (Except Unit Nat × List Byte × Fat)
  | 0, _, _, _, _, _ => none
  | fuel + 1, pos, cluster, done, out, fat =>
    if done < want then
      match readCluster profile dev cluster fat with
      | none => none
      | some (.error e) => some (.error e, out, fat)
      | some (.ok bytes) =>
        let n := min (want - done) (cb - pos)
        match splice out done ((bytes.drop pos).take n) with
        | none => none
        | some out =>
          if done + n < want then
            match nextCluster dev cluster fat with
            | (.error e, fat) => some (.error e, out, fat)
            | (.ok none, fat) => some (.error (), out, fat)
            | (.ok (some next), fat) => copyLoop cb want fuel 0 next (done + n) out fat
          else copyLoop cb want fuel 0 cluster (done + n) out fat
    else some (.ok done, out, fat)

def readAt (entry : DirEntry) (offset scratch : Nat) (out : List Byte) (fat : Fat) :
    Option (Except Unit Nat × List Byte × Fat) :=
  if entry.size ≤ offset ∨ out.length = 0 then some (.ok 0, out, fat)
  else
    let want := min out.length (entry.size - offset)
    match fat.geo.clusterBytes profile with
    | none => none
    | some cb =>
      if scratch < cb then some (.error (), out, fat)
      else
        match walk dev cb (offset + 1) offset (BitVec.ofNat 32 entry.cluster) fat with
        | none => none
        | some (.error e, fat) => some (.error e, out, fat)
        | some (.ok (pos, cluster), fat) =>
          copyLoop profile dev cb want (want + 1) pos cluster 0 out fat

end Reading

end K1K.Disk
