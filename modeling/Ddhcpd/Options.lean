import Ddhcpd.Types

/-!
`dhcp_options.c`: the option array of a packet and the option store of the node.
-/

namespace Ddhcpd.Options
open Bytes Types

/-! The array of a packet, of which `len` entries count. -/

def findOption (options : List DhcpOption) (len code : UInt8) : Option DhcpOption :=
  (options.take len.toNat).find? fun option => option.code = code

def emptyOption : DhcpOption := ⟨0, 0, []⟩

/-- `set_option` walks down from index `len - 1`; the result tells whether it met an
entry with the same code or a padding. -/
def setOptionFrom (code payloadLen : UInt8) (payload : List UInt8) :
    Nat → List DhcpOption → List DhcpOption × Bool
  | 0, options => (options, false)
  | index + 1, options =>
      let option := options.getD index emptyOption
      if option.code = code ∨ option.code = 0 then
        (options.set index ⟨code, payloadLen, payload⟩, true)
      else setOptionFrom code payloadLen payload index options

def setOption (options : List DhcpOption) (len code payloadLen : UInt8)
    (payload : List UInt8) : List DhcpOption × Bool :=
  setOptionFrom code payloadLen payload len.toNat options

def findOptionRequestedAddress (options : List DhcpOption) (len : UInt8) : Option (List UInt8) :=
  (findOption options len codeRequestedAddress).map DhcpOption.payload

/-- The requested codes, as many as the length of option 55 says. -/
def findOptionParameterRequestList (options : List DhcpOption) (len : UInt8) : List UInt8 :=
  match findOption options len codeParameterRequestList with
  | some option => (bytesAt option.payload 0 option.len.toNat).toList
  | none => []

/-! The store, a linked list searched from its head. -/

def findInOptionStore (store : List DhcpOption) (code : UInt8) : Option DhcpOption :=
  store.find? fun option => option.code = code

def findInOptionStoreAddressLeaseTime (store : List DhcpOption) : UInt32 :=
  match findInOptionStore store codeAddressLeaseTime with
  | some option =>
      if option.payload = [] ∨ option.len < 4 then 0 else word32At option.payload 0
  | none => 0

def setOptionInStore (store : List DhcpOption) (option : DhcpOption) : List DhcpOption :=
  match store with
  | [] => [option]
  | current :: rest =>
      if current.code = option.code then option :: rest
      else current :: setOptionInStore rest option

def removeOptionInStore (store : List DhcpOption) (code : UInt8) : List DhcpOption :=
  match store with
  | [] => []
  | option :: rest =>
      if option.code = code then rest else option :: removeOptionInStore rest code

def setOptionFromStore (store options : List DhcpOption) (len code : UInt8) :
    List DhcpOption × Bool :=
  match findInOptionStore store code with
  | none => (options, false)
  | some option => setOption options len code option.len option.payload

/-! `dhcp_options_init`: what the command line leaves open is taken from the network. -/

def hasInOptionStore (store : List DhcpOption) (code : UInt8) : Bool :=
  (findInOptionStore store code).isSome

/-- The conversion to `int8_t`. -/
def int8 (value : Int) : Int := value.bmod 256

/-- `min(max(bits, 0), 8)`: as many of the bits as fall into one byte. -/
def bitsInByte (bits : Int) : Nat := (min (max bits 0) 8).toNat

def maskByte (bits : Int) : UInt8 := UInt8.ofNat (256 - 256 >>> bitsInByte (int8 bits))

def subnetMask (cfg : Settings) : List UInt8 :=
  let pl := int8 cfg.prefixLen.toNat
  [maskByte (pl - 0), maskByte (pl - 8), maskByte (pl - 16), maskByte (pl - 24)]

def broadcastByte (byte : UInt8) (bits : Int) : UInt8 :=
  byte ||| UInt8.ofNat (1 <<< bitsInByte bits - 1)

def broadcastAddress (cfg : Settings) : List UInt8 :=
  let pl := int8 cfg.prefixLen.toNat
  let network := word32Bytes cfg.prefixAddr
  [broadcastByte (byteAt network 0) (8 - pl), broadcastByte (byteAt network 1) (16 - pl),
    broadcastByte (byteAt network 2) (24 - pl), broadcastByte (byteAt network 3) (32 - pl)]

/-- The address of the network with 1 for its last byte. -/
def serverIdentifier (cfg : Settings) : List UInt8 := (word32Bytes cfg.prefixAddr).set 3 1

/-- One option of four bytes, unless it is there; `memory` is what the allocator answers. -/
def initOption (memory : UInt8 → Bool) (code : UInt8) (payload : List UInt8)
    (store : List DhcpOption) : Option (List DhcpOption) :=
  if hasInOptionStore store code then some store
  else if memory code then some (setOptionInStore store ⟨code, 4, payload⟩)
  else none

/-- `dhcp_options_init`; `none` when it runs out of memory, where `main` aborts. -/
def dhcpOptionsInit (memory : UInt8 → Bool) (cfg : Settings) (store : List DhcpOption) :
    Option (List DhcpOption) := do
  let store ← initOption memory codeSubnetMask (subnetMask cfg) store
  let store ← initOption memory codeTimeOffset [0, 0, 0, 0] store
  let store ← initOption memory codeBroadcastAddress (broadcastAddress cfg) store
  let store ← initOption memory codeAddressLeaseTime [0, 0, 1, 44] store
  initOption memory codeServerIdentifier (serverIdentifier cfg) store

/-! The options of a reply. -/

/-- The array has one entry for each requested code and `additional` more; the store's
options fill it from the front. The count is what `fill_options` returns. -/
def fillOptions (options : List DhcpOption) (len : UInt8) (store : List DhcpOption)
    (additional : Nat) : List DhcpOption × Nat :=
  let requested := findOptionParameterRequestList options len
  let found := requested.filterMap (findInOptionStore store)
  (found ++ List.replicate (requested.length + additional - found.length) emptyOption,
    found.length + additional)

end Ddhcpd.Options
