import Ddhcpd.CText
import Ddhcpd.Discover
import Ddhcpd.Numbering
import Mathlib.Data.Nat.Log

/-!
What `main` makes of its command line. The size of a block is a power of two that the option
`-b` gives the exponent of, the length of the network prefix comes from `-N`, and the number of
blocks is computed from both in floating point, which is exact on powers of two. The exponent is
not checked, and of the prefix only that it is not shorter than 8.
-/

namespace Ddhcpd.CommandLine
open Types Leases Node CText Discover Numbering

/-! The option loop. -/

/-- The options that set one of the values below. -/
inductive Argument where
  | blockSize (optarg : List Char)
  | network (optarg : List Char)
  | spareLeases (optarg : List Char)
  | disableDhcp

/-- The size of a block is `none` where C leaves the shift undefined. -/
structure Configuration where
  blockSize : Option UInt8
  prefixAddr : InAddr
  prefixLen : UInt8
  spareLeasesNeeded : UInt8
  disableDhcp : Bool
  deriving DecidableEq

def initial : Configuration := ⟨some 32, 0x0A000000, 24, 2, false⟩

/-- `(uint8_t)(1 << bits)` with an `int` of 32 bits. -/
def shifted (bits : Int) : Option UInt8 :=
  if 0 ≤ bits ∧ bits < 31 then some (UInt8.ofNat (2 ^ bits.toNat)) else none

section Options
variable (inetAton : List Char → Option InAddr)

/-- One pass of the loop; `none` where it leaves the program. -/
def readArgument (config : Configuration) : Argument → Option Configuration
  | .blockSize optarg => some { config with blockSize := shifted (atoi optarg) }
  | .network optarg =>
      (cut '/' optarg).bind fun parts =>
        if parts.2 = [] then none
        else if uint8 (atoi parts.2) < 8 then none
        else some { config with
          prefixAddr := (inetAton parts.1).getD config.prefixAddr
          prefixLen := uint8 (atoi parts.2) }
  | .spareLeases optarg => some { config with spareLeasesNeeded := uint8 (atoi optarg) }
  | .disableDhcp => some { config with disableDhcp := true }

def optionLoop (arguments : List Argument) : Option Configuration :=
  arguments.foldlM (readArgument inetAton) initial

end Options

/-- `(uint32_t)pow(2u, 32u - prefix_len - ceil(log2(block_size)))`. The subtraction from `32u`
wraps; `none` where the result is no value of the type, as for a block size of 0, whose logarithm
is negative infinity. -/
def numberOfBlocks (prefixLen size : UInt8) : Option UInt32 :=
  let exponent : Int := ((32 : UInt32) - prefixLen.toUInt32).toNat - Nat.clog 2 size.toNat
  if size = 0 then none
  else if exponent < 0 then some 0
  else if exponent < 32 then some (UInt32.ofNat (2 ^ exponent.toNat))
  else none

/-! What the arithmetic of the daemon rests on. -/

/-- The addresses of the network are those of the blocks, each in one place of one block. -/
def Tiles (prefixAddr : InAddr) (size count total : Nat) : Prop :=
  ∀ address, (address - prefixAddr).toNat < total ↔ ∃! place : Nat × Nat, place.1 < count ∧
    place.2 < size ∧ addrAdd (addrAdd prefixAddr (place.1 * size)) place.2 = address

/-- With no block size of 0 nothing is divided by 0. -/
structure SoundSizes (config : Configuration) (size : UInt8) (count : UInt32) : Prop where
  sized : config.blockSize = some size
  counted : numberOfBlocks config.prefixLen size = some count
  nonzero : 1 ≤ size.toNat
  blocks : 1 ≤ count.toNat
  product : count.toNat * size.toNat = 2 ^ (32 - config.prefixLen.toNat)
  tiles : Tiles config.prefixAddr size.toNat count.toNat (2 ^ (32 - config.prefixLen.toNat))

/-- What stands behind the slash of a network. -/
def cidrOf (optarg : List Char) : List Char := (cut '/' optarg).elim [] Prod.snd

def bitsAfter (bits : Int) : Argument → Int
  | .blockSize optarg => atoi optarg
  | _ => bits

def lenAfter (len : UInt8) : Argument → UInt8
  | .network optarg => uint8 (atoi (cidrOf optarg))
  | _ => len

/-- The exponent of the last `-b`, and the length of the prefix of the last `-N`. -/
def bitsOf (arguments : List Argument) : Int := arguments.foldl bitsAfter 5

def lenOf (arguments : List Argument) : UInt8 := arguments.foldl lenAfter 24

/-- The configuration has these two, and the length is one that the loop accepts. -/
structure Reads (config : Configuration) (bits : Int) (len : UInt8) : Prop where
  size : config.blockSize = shifted bits
  network : config.prefixLen = len
  long : 8 ≤ len.toNat

section Loop
variable {inetAton : List Char → Option InAddr} {config after : Configuration} {bits : Int}
  {len : UInt8}

theorem read_argument_reads {argument : Argument} (reads : Reads config bits len)
    (done : readArgument inetAton config argument = some after) :
    Reads after (bitsAfter bits argument) (lenAfter len argument) := by
  cases argument with
  | blockSize optarg =>
      cases done
      exact ⟨rfl, reads.network, reads.long⟩
  | network optarg =>
      obtain ⟨parts, found, done⟩ := Option.bind_eq_some_iff.mp done
      have cidr : cidrOf optarg = parts.2 := by rw [cidrOf, found, Option.elim_some]
      split at done
      · contradiction
      split at done
      · contradiction
      rename_i checked
      cases done
      rw [lenAfter, cidr]
      exact ⟨reads.size, rfl, Nat.le_of_not_lt checked⟩
  | spareLeases optarg =>
      cases done
      exact ⟨reads.size, reads.network, reads.long⟩
  | disableDhcp =>
      cases done
      exact ⟨reads.size, reads.network, reads.long⟩

theorem arguments_reads {arguments : List Argument} (reads : Reads config bits len)
    (done : arguments.foldlM (readArgument inetAton) config = some after) :
    Reads after (arguments.foldl bitsAfter bits) (arguments.foldl lenAfter len) := by
  induction arguments generalizing config bits len with
  | nil =>
      cases done
      exact reads
  | cons argument rest ih =>
      rw [List.foldlM_cons] at done
      obtain ⟨middle, read, done⟩ := Option.bind_eq_some_iff.mp done
      exact ih (read_argument_reads reads read) done

theorem option_loop_reads {arguments : List Argument}
    (done : optionLoop inetAton arguments = some after) :
    Reads after (bitsOf arguments) (lenOf arguments) :=
  arguments_reads ⟨rfl, rfl, by decide⟩ done

end Loop

/-! The arithmetic. -/

section Sizes
variable {config : Configuration} {bits : Int} {len size : UInt8} {count : UInt32}

theorem power_byte {bits : Nat} (small : bits ≤ 7) : (UInt8.ofNat (2 ^ bits)).toNat = 2 ^ bits := by
  have below : 2 ^ bits < 256 := Nat.pow_lt_pow_right (by decide) (Nat.lt_succ_of_le small)
  exact UInt8.toNat_ofNat_of_lt' below

theorem shifted_small {bits : Nat} (small : bits ≤ 7) :
    shifted bits = some (UInt8.ofNat (2 ^ bits)) := by
  rw [shifted, if_pos (by omega), Int.toNat_natCast]

/-- Eight or more bits leave nothing of the byte. -/
theorem shifted_nonzero (shift : shifted bits = some size) (nonzero : 1 ≤ size.toNat) :
    ∃ exponent : Nat, bits = exponent ∧ exponent ≤ 7 := by
  rw [shifted, Option.ite_none_right_eq_some] at shift
  obtain ⟨defined, shift⟩ := shift
  refine ⟨bits.toNat, by omega, ?_⟩
  by_contra large
  have whole : 256 ∣ 2 ^ bits.toNat :=
    Nat.pow_dvd_pow 2 (show 8 ≤ bits.toNat from Nat.lt_of_not_le large)
  rw [← Option.some.inj shift, UInt8.toNat_ofNat', Nat.mod_eq_zero_of_dvd whole] at nonzero
  contradiction

/-- The length of the prefix and the exponent of the block size share 32 bits. -/
theorem number_of_blocks_power {bits : Nat} (small : bits ≤ 7) (long : 8 ≤ len.toNat) :
    numberOfBlocks len (UInt8.ofNat (2 ^ bits)) =
      if len.toNat + bits ≤ 32 then some (UInt32.ofNat (2 ^ (32 - len.toNat - bits)))
      else if len.toNat ≤ 32 then some 0
      else none := by
  have nonzero : UInt8.ofNat (2 ^ bits) ≠ 0 := by
    intro zero
    have none_left := congrArg UInt8.toNat zero
    rw [power_byte small] at none_left
    exact absurd none_left (Nat.two_pow_pos bits).ne'
  have bound := len.toNat_lt
  have wide : len.toUInt32.toNat = len.toNat := rfl
  have difference : ((32 : UInt32) - len.toUInt32).toNat = (2 ^ 32 - len.toNat + 32) % 2 ^ 32 := by
    rw [UInt32.toNat_sub, wide]
    rfl
  simp only [numberOfBlocks, power_byte small, Nat.clog_pow 2 bits Nat.one_lt_two, nonzero,
    ↓reduceIte, difference]
  by_cases fits : len.toNat ≤ 32
  · have rest : (2 ^ 32 - len.toNat + 32) % 2 ^ 32 = 32 - len.toNat := by omega
    by_cases room : len.toNat + bits ≤ 32
    · have exponent : ((32 - len.toNat : Nat) - bits : Int).toNat = 32 - len.toNat - bits := by omega
      rw [rest, if_neg (by omega), if_pos (by omega), if_pos room, exponent]
    · rw [rest, if_pos (by omega), if_neg room, if_pos fits]
  · have wrapped : (2 ^ 32 - len.toNat + 32) % 2 ^ 32 = 2 ^ 32 - len.toNat + 32 := by omega
    rw [wrapped, if_neg (by omega), if_neg (by omega), if_neg (by omega), if_neg fits]

theorem place_small {size count block index : Nat} (below : block < count) (low : index < size) :
    block * size + index < count * size := by
  have next : (block + 1) * size ≤ count * size := Nat.mul_le_mul_right _ below
  rw [Nat.succ_mul] at next
  omega

theorem tiles_product {prefixAddr : InAddr} {size count total : Nat} (positive : 0 < size)
    (product : count * size = total) (fits : total ≤ 2 ^ 32) : Tiles prefixAddr size count total := by
  intro address
  constructor
  · intro inside
    let offset := (address - prefixAddr).toNat
    refine ⟨(offset / size, offset % size), ⟨?_, Nat.mod_lt _ positive, ?_⟩, ?_⟩
    · rw [Nat.div_lt_iff_lt_mul positive, product]
      exact inside
    · rw [addr_add_add, Nat.div_add_mod']
      exact add_of_offset _ _
    · rintro ⟨block, index⟩ ⟨below, low, here⟩
      have small : block * size + index < 2 ^ 32 :=
        Nat.lt_of_lt_of_le (product ▸ place_small below low) fits
      have same : offset = block * size + index := by
        rw [← offset_of_add prefixAddr small, ← addr_add_add, here]
      rw [same, Nat.add_comm, Nat.add_mul_div_right _ _ positive, Nat.div_eq_of_lt low, Nat.zero_add,
        Nat.add_mul_mod_self_right, Nat.mod_eq_of_lt low]
  · rintro ⟨⟨block, index⟩, ⟨below, low, rfl⟩, -⟩
    have inside := product ▸ place_small below low
    rwa [addr_add_add, offset_of_add _ (Nat.lt_of_lt_of_le inside fits)]

/-- Where the exponents share 32 bits, the sizes are as they should be. -/
theorem sizes_sound {bits : Nat} (small : bits ≤ 7) (reads : Reads config bits len)
    (room : len.toNat + bits ≤ 32) : ∃ size count, SoundSizes config size count := by
  have long := reads.long
  have below : 2 ^ (32 - len.toNat - bits) < 2 ^ 32 := Nat.pow_lt_pow_right (by decide) (by omega)
  have count : (UInt32.ofNat (2 ^ (32 - len.toNat - bits))).toNat = 2 ^ (32 - len.toNat - bits) :=
    UInt32.toNat_ofNat_of_lt' below
  have product : 2 ^ (32 - len.toNat - bits) * 2 ^ bits = 2 ^ (32 - len.toNat) := by
    rw [← Nat.pow_add, Nat.sub_add_cancel (by omega)]
  refine ⟨UInt8.ofNat (2 ^ bits), UInt32.ofNat (2 ^ (32 - len.toNat - bits)), ?_⟩
  constructor
  case sized => rw [reads.size, shifted_small small]
  case counted => rw [reads.network, number_of_blocks_power small long, if_pos room]
  case nonzero =>
    rw [power_byte small]
    exact Nat.two_pow_pos bits
  case blocks =>
    rw [count]
    exact Nat.two_pow_pos _
  case product => rw [count, power_byte small, reads.network, product]
  case tiles =>
    rw [count, power_byte small, reads.network]
    exact tiles_product (Nat.two_pow_pos bits) product (Nat.pow_le_pow_right (by decide) (by omega))

theorem sound_sizes {bits : Int} (reads : Reads config bits len)
    (sound : SoundSizes config size count) :
    0 ≤ bits ∧ bits ≤ 7 ∧ (len.toNat : Int) + bits ≤ 32 := by
  obtain ⟨exponent, rfl, small⟩ :=
    shifted_nonzero (reads.size.symm.trans sound.sized) sound.nonzero
  have size : UInt8.ofNat (2 ^ exponent) = size := by
    have shift := reads.size.symm.trans sound.sized
    rw [shifted_small small] at shift
    exact Option.some.inj shift
  have counted := sound.counted
  rw [reads.network, ← size, number_of_blocks_power small reads.long] at counted
  refine ⟨by omega, by omega, ?_⟩
  by_contra room
  rw [if_neg (by omega)] at counted
  split at counted
  · have blocks := sound.blocks
    rw [← Option.some.inj counted] at blocks
    contradiction
  · contradiction

/-- Sound sizes are those of the nodes that the handlers and the house keeping are modelled for. -/
theorem sound_settings (sound : SoundSizes config size count) (long : 8 ≤ config.prefixLen.toNat) :
    ∃ cfg : Settings, cfg.blockSize = size ∧ cfg.numberOfBlocks = count ∧
      cfg.prefixAddr = config.prefixAddr ∧ cfg.prefixLen = config.prefixLen := by
  have fits : count.toNat * size.toNat ≤ 2 ^ 24 := by
    rw [sound.product]
    exact Nat.pow_le_pow_right (by decide) (by omega)
  exact ⟨{ smallNode 1 with
    blockSize := size
    numberOfBlocks := count
    prefixAddr := config.prefixAddr
    prefixLen := config.prefixLen
    size_pos := sound.nonzero
    network_fits := fits }, rfl, rfl, rfl, rfl⟩

end Sizes

end Ddhcpd.CommandLine
