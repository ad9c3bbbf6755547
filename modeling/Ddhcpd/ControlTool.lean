import Ddhcpd.OptionText
import Ddhcpd.ByteOrder

/-!
The control tool and the daemon. Every option of `ddhcpctl` writes to the front of one buffer, where
bytes of earlier options stay, and only the length of the message says how much of it is sent. What
arrives is taken for what the last of these options means, and `-o` overrides them all.
-/

namespace Ddhcpd.ControlTool
open Bytes Words Types Options Node CText Announced OptionText

/-! `ddhcpctl.c`. -/

/-- What `getopt` finds. Of `usage` are `-h`, what is no option, and an option that lacks its
argument; the options of the statistics are none in a build without them. -/
inductive Argument where
  | blocks
  | options
  | setOption (optionMemory payloadMemory : Bool) (optarg : List Char)
  | leaseTime (optarg : List Char)
  | removeOption (optarg : List Char)
  | socket (optarg : List Char)
  | logLevel (optarg : List Char)
  | version
  | usage
  deriving DecidableEq

structure Tool where
  buffer : List UInt8
  msglen : Nat
  option : Option DhcpOption
  path : List Char
  showUsage : Bool

/-- The bytes take the front of the buffer, and all of them are sent. -/
def Tool.write (tool : Tool) (bytes : List UInt8) : Tool :=
  { tool with buffer := bytes ++ tool.buffer.drop bytes.length, msglen := bytes.length }

def leaseTimeBytes (optarg : List Char) : List UInt8 := word32Bytes (UInt32.ofNat (strtoul optarg))

/-- One pass of the loop; `none` where it leaves the program. -/
def readArgument (tool : Tool) : Argument → Option Tool
  | .blocks => some (tool.write [ctlBlockShow])
  | .options => some (tool.write [ctlOptionsShow])
  | .setOption optionMemory payloadMemory optarg =>
      (parseOption optionMemory payloadMemory optarg).map fun option =>
        { tool with option := some option }
  | .leaseTime optarg =>
      some (tool.write (ctlOptionSet :: 51 :: 4 :: leaseTimeBytes optarg))
  | .removeOption optarg => some (tool.write [ctlOptionRemove, uint8 (atoi optarg)])
  | .socket optarg => some { tool with path := optarg }
  | .logLevel optarg => some (tool.write [ctlLogLevelSet, uint8 (atoi optarg)])
  | .version => none
  | .usage => some { tool with showUsage := true }

def defaultPath : List Char := "/tmp/ddhcpd_ctl".toList

def initial (argc : Nat) : Tool := ⟨List.replicate 1500 0, 0, none, defaultPath, argc = 1⟩

/-- An option that was given is written last. -/
def packOption (tool : Tool) : Tool :=
  match tool.option with
  | some option => tool.write (ctlOptionMessage option)
  | none => tool

inductive Outcome where
  | left
  | usage
  | sends (path : List Char) (message : List UInt8)
  deriving DecidableEq

/-- `main` of the tool, up to what it gives to the socket. -/
def ctlMain (argc : Nat) (arguments : List Argument) : Outcome :=
  match arguments.foldlM readArgument (initial argc) with
  | none => .left
  | some tool =>
      if tool.showUsage then .usage
      else .sends tool.path ((packOption tool).buffer.take (packOption tool).msglen)

/-! What is meant. -/

inductive Wish where
  | blocks
  | options
  | store (option : DhcpOption)
  | remove (code : UInt8)
  | level (value : UInt8)

def Wish.perform (c : Config) : Wish → Config
  | .store option => { c with options := setOptionInStore c.options option }
  | .remove code => { c with options := removeOptionInStore c.options code }
  | _ => c

def leaseTimeOption (optarg : List Char) : DhcpOption := ⟨codeAddressLeaseTime, 4, leaseTimeBytes optarg⟩

def wishOf : Argument → Option Wish
  | .blocks => some .blocks
  | .options => some .options
  | .leaseTime optarg => some (.store (leaseTimeOption optarg))
  | .removeOption optarg => some (.remove (uint8 (atoi optarg)))
  | .logLevel optarg => some (.level (uint8 (atoi optarg)))
  | _ => none

def optionOf : Argument → Option DhcpOption
  | .setOption optionMemory payloadMemory optarg => parseOption optionMemory payloadMemory optarg
  | _ => none

def pathOf : Argument → Option (List Char)
  | .socket optarg => some optarg
  | _ => none

def latest {α : Type} (read : Argument → Option α) (arguments : List Argument) : Option α :=
  arguments.reverse.findSome? read

def meant (arguments : List Argument) : Option Wish :=
  ((latest optionOf arguments).map .store).or (latest wishOf arguments)

/-! What is sent. -/

def wishMessage : Wish → List UInt8
  | .blocks => [ctlBlockShow]
  | .options => [ctlOptionsShow]
  | .store option => ctlOptionMessage option
  | .remove code => [ctlOptionRemove, code]
  | .level value => [ctlLogLevelSet, value]

/-- An option as long as its length says. -/
def Sized (option : DhcpOption) : Prop := option.len.toNat = option.payload.length

theorem message_sized {option : DhcpOption} (sized : Sized option) :
    ctlOptionMessage option = ctlOptionSet :: option.code :: option.len :: option.payload := by
  rw [ctlOptionMessage, bytes_at_slice, slice_take (Nat.le_of_eq sized), sized, List.take_length]
  rfl

theorem lease_time_sized (optarg : List Char) : Sized (leaseTimeOption optarg) := rfl

theorem payload_sized {count : Nat} {text : List Char} {payload : List UInt8}
    (parsed : parsePayload count text = some payload) : payload.length = count := by
  induction count generalizing text payload with
  | zero =>
      cases parsed
      rfl
  | succ count ih =>
      rw [parsePayload] at parsed
      split at parsed
      · rename_i last
        cases parsed
        rw [last]
        rfl
      · obtain ⟨parts, -, rest⟩ := Option.bind_eq_some_iff.mp parsed
        obtain ⟨payload, behind, rfl⟩ := Option.map_eq_some_iff.mp rest
        rw [List.length_cons, ih behind]

theorem option_sized {optionMemory payloadMemory : Bool} {optarg : List Char} {option : DhcpOption}
    (parsed : parseOption optionMemory payloadMemory optarg = some option) : Sized option := by
  simp only [parseOption, Option.bind_eq_bind] at parsed
  obtain ⟨parts, -, parsed⟩ := Option.bind_eq_some_iff.mp parsed
  obtain ⟨rest, -, parsed⟩ := Option.bind_eq_some_iff.mp parsed
  split at parsed
  · contradiction
  split at parsed
  · contradiction
  obtain ⟨payload, read, done⟩ := Option.bind_eq_some_iff.mp parsed
  cases done
  exact (payload_sized read).symm

/-! The loop. -/

def Tool.message (tool : Tool) : List UInt8 := tool.buffer.take tool.msglen

/-- Whatever stood in the buffer, what was written is what is sent. -/
@[simp] theorem write_message (tool : Tool) (bytes : List UInt8) : (tool.write bytes).message = bytes :=
  List.take_left

theorem latest_cons {α : Type} (read : Argument → Option α) (argument : Argument)
    (rest : List Argument) : latest read (argument :: rest) = (latest read rest).or (read argument) := by
  rw [latest, List.reverse_cons, List.findSome?_append]
  simp [latest]

/-- What one pass leaves: each part is what the argument says of it, or what it was. -/
theorem argument_read {tool after : Tool} {argument : Argument}
    (read : readArgument tool argument = some after) :
    after.option = (optionOf argument).or tool.option ∧
      after.message = ((wishOf argument).map wishMessage).getD tool.message ∧
      after.path = (pathOf argument).getD tool.path := by
  have wrote {bytes : List UInt8} (done : some (tool.write bytes) = some after) :
      after.option = tool.option ∧ after.message = bytes ∧ after.path = tool.path := by
    cases done
    exact ⟨rfl, write_message tool bytes, rfl⟩
  cases argument with
  | blocks => exact wrote read
  | options => exact wrote read
  | removeOption optarg => exact wrote read
  | logLevel optarg => exact wrote read
  | leaseTime optarg =>
      obtain ⟨option, message, path⟩ := wrote read
      refine ⟨option, message.trans ?_, path⟩
      exact (message_sized (lease_time_sized optarg)).symm
  | setOption optionMemory payloadMemory optarg =>
      obtain ⟨option, parsed, rfl⟩ := Option.map_eq_some_iff.mp read
      exact ⟨by simp [optionOf, parsed], rfl, rfl⟩
  | socket optarg =>
      cases read
      exact ⟨rfl, rfl, rfl⟩
  | version => contradiction
  | usage =>
      cases read
      exact ⟨rfl, rfl, rfl⟩

theorem arguments_read {tool after : Tool} {arguments : List Argument}
    (read : arguments.foldlM readArgument tool = some after) :
    after.option = (latest optionOf arguments).or tool.option ∧
      after.message = ((latest wishOf arguments).map wishMessage).getD tool.message ∧
      after.path = (latest pathOf arguments).getD tool.path := by
  induction arguments generalizing tool with
  | nil =>
      cases read
      exact ⟨rfl, rfl, rfl⟩
  | cons argument rest ih =>
      obtain ⟨middle, first, others⟩ := Option.bind_eq_some_iff.mp read
      obtain ⟨option, message, path⟩ := argument_read first
      obtain ⟨option', message', path'⟩ := ih others
      refine ⟨?_, ?_, ?_⟩
      · rw [option', option, latest_cons, Option.or_assoc]
      · rw [message', message, latest_cons]
        cases latest wishOf rest <;> rfl
      · rw [path', path, latest_cons]
        cases latest pathOf rest <;> rfl

/-- What is sent is the message of what is meant. -/
theorem sent_meant {argc : Nat} {arguments : List Argument} {path : List Char} {message : List UInt8}
    (sends : ctlMain argc arguments = .sends path message) :
    message = ((meant arguments).map wishMessage).getD [] ∧
      path = (latest pathOf arguments).getD defaultPath := by
  unfold ctlMain at sends
  split at sends
  · contradiction
  rename_i tool read
  obtain ⟨option, written, chosen⟩ := arguments_read read
  split at sends
  · contradiction
  cases sends
  refine ⟨?_, chosen⟩
  change (packOption tool).message = _
  rw [initial, Option.or_none] at option
  rw [meant, packOption, option]
  cases latest optionOf arguments with
  | some option => exact write_message tool _
  | none => exact written

/-! What arrives. -/

/-- The wish fits into one message. -/
def Wish.Sound : Wish → Prop
  | .store option => Sized option
  | _ => True

theorem meant_sound {arguments : List Argument} {wish : Wish} (means : meant arguments = some wish) :
    wish.Sound := by
  rcases Option.or_eq_some_iff.mp means with given | ⟨-, named⟩
  · obtain ⟨option, found, rfl⟩ := Option.map_eq_some_iff.mp given
    obtain ⟨argument, -, parsed⟩ := List.exists_of_findSome?_eq_some found
    cases argument with
    | setOption optionMemory payloadMemory optarg => exact option_sized parsed
    | _ => contradiction
  · obtain ⟨argument, -, same⟩ := List.exists_of_findSome?_eq_some named
    cases argument with
    | leaseTime optarg =>
        cases same
        exact lease_time_sized optarg
    | setOption => contradiction
    | socket => contradiction
    | version => contradiction
    | usage => contradiction
    | _ =>
        cases same
        trivial

theorem wish_message_bounds {wish : Wish} (sound : wish.Sound) :
    0 < (wishMessage wish).length ∧ (wishMessage wish).length ≤ 258 := by
  cases wish with
  | store option =>
      have short := option.len.toNat_lt
      have whole : option.len.toNat = option.payload.length := sound
      rw [wishMessage, message_sized sound]
      simp only [List.length_cons]
      omega
  | blocks => decide
  | options => decide
  | remove code => exact ⟨Nat.two_pos, Nat.le_add_right 2 256⟩
  | level value => exact ⟨Nat.two_pos, Nat.le_add_right 2 256⟩

/-- The daemon has the memory for an option. -/
def Storing (env : Env) : Prop := env.alloc .controlOption = true ∧ env.alloc .controlPayload = true

/-- The daemon takes the message for the wish, whatever else is in its buffer. -/
theorem message_performed {env : Env} {wish : Wish} (sound : wish.Sound) (memory : Storing env)
    (stale : List UInt8) (c : Config) :
    handleCommand env (wishMessage wish ++ stale) (wishMessage wish).length c = (wish.perform c, 0) := by
  cases wish with
  | store option =>
      rw [wishMessage, message_sized sound]
      exact message_stored memory sound stale
  | blocks => rfl
  | options => rfl
  | remove code => rfl
  | level value => rfl

theorem message_refused {env : Env} {option : DhcpOption} (sized : Sized option)
    (lacking : ¬ Storing env) (stale : List UInt8) (c : Config) :
    handleCommand env (ctlOptionMessage option ++ stale) (ctlOptionMessage option).length c =
      (c, -1) := by
  rw [message_sized sized]
  exact message_starved lacking sized stale

theorem told_lease_time (store : List DhcpOption) (optarg : List Char) :
    findInOptionStoreAddressLeaseTime (setOptionInStore store (leaseTimeOption optarg)) =
      UInt32.ofNat (strtoul optarg) := by
  have found : findInOptionStore (setOptionInStore store (leaseTimeOption optarg)) codeAddressLeaseTime =
      some (leaseTimeOption optarg) :=
    (set_in_store_find store (leaseTimeOption optarg) codeAddressLeaseTime).trans (if_pos rfl)
  rw [findInOptionStoreAddressLeaseTime, found]
  exact big_endian_word32 _

/-- The daemon does what is meant, or says that it lacks the memory. -/
structure Obeyed (message : List UInt8) (wish : Wish) : Prop where
  performed : ∀ env stale c, Storing env →
    handleCommand env (message ++ stale) message.length c = (wish.perform c, 0)
  starved : ∀ option, wish = .store option → ∀ env stale c, ¬ Storing env →
    handleCommand env (message ++ stale) message.length c = (c, -1)
  leaseTime : ∀ optarg, wish = .store (leaseTimeOption optarg) → ∀ env stale c, Storing env →
    findInOptionStoreAddressLeaseTime
      (handleCommand env (message ++ stale) message.length c).1.options = UInt32.ofNat (strtoul optarg)

theorem wish_obeyed {wish : Wish} (sound : wish.Sound) : Obeyed (wishMessage wish) wish where
  performed _ stale c memory := message_performed sound memory stale c
  starved option same _ stale c lacking := by
    subst same
    exact message_refused sound lacking stale c
  leaseTime optarg same _ stale c memory := by
    rw [message_performed sound memory stale c, same]
    exact told_lease_time c.options optarg

/-- Whatever the tool was called with: what it sends is one message at most, and the daemon does what
the last option means. -/
theorem tool_obeyed {argc : Nat} {arguments : List Argument} {path : List Char}
    {message : List UInt8} (sends : ctlMain argc arguments = .sends path message) :
    path = (latest pathOf arguments).getD defaultPath ∧ message.length ≤ 258 ∧
      (message = [] ↔ meant arguments = none) ∧
      ∀ wish, meant arguments = some wish → Obeyed message wish := by
  obtain ⟨told, chosen⟩ := sent_meant sends
  refine ⟨chosen, ?_⟩
  cases means : meant arguments with
  | none =>
      rw [means] at told
      subst told
      exact ⟨Nat.zero_le _, ⟨fun _ => rfl, fun _ => rfl⟩, fun wish same => by contradiction⟩
  | some wish =>
      rw [means] at told
      have sound := meant_sound means
      obtain ⟨some_sent, short⟩ := wish_message_bounds sound
      obtain rfl : message = wishMessage wish := told
      refine ⟨short, ⟨fun empty => ?_, fun none => by contradiction⟩, fun other same => ?_⟩
      · rw [empty] at some_sent
        contradiction
      · cases same
        exact wish_obeyed sound

def smallArguments : List Argument :=
  [.removeOption "51".toList, .leaseTime "0x12c".toList, .socket "/run/ctl".toList]

theorem tool_obeyed_time :
    ctlMain 7 smallArguments = .sends "/run/ctl".toList [3, 51, 4, 0, 0, 1, 44] ∧
      Obeyed [3, 51, 4, 0, 0, 1, 44] (.store (leaseTimeOption "0x12c".toList)) := by
  have sends : ctlMain 7 smallArguments = .sends "/run/ctl".toList [3, 51, 4, 0, 0, 1, 44] := by
    decide +kernel
  exact ⟨sends, (tool_obeyed sends).2.2.2 _ rfl⟩

end Ddhcpd.ControlTool
