import CrimsonCache.ConfigFile
import CrimsonCache.ReplicaReconnect

/-!
The lengths that the three read loops pass to the kernel, for the buffer sizes
that a configuration file can set. A size is an unchecked `int`: it is converted
to `size_t` where a client's buffer is allocated, and four times it is the
length of the replication thread's array. C leaves the overflow of an `int`
undefined, and an array without elements.
-/

namespace CrimsonCache.ReadLengths

open CString ServerState Replication ReplicationThread ReplicaReconnect ConfigFile Runs

section Sizes

/-- The result of an operation on `int` operands. -/
def toInt (value : Int) : Option Int := if -2 ^ 31 ≤ value ∧ value < 2 ^ 31 then some value else none

/-- `config.buffer_size - buffer_pos - 1`, converted to `size_t`. -/
def intLength (bufferSize : Int) (pos : Nat) : Option Nat :=
  (toInt (bufferSize - pos)).bind fun room => (toInt (room - 1)).map wrap64

/-- `client->buffer_capacity - client->buffer_pos - 1`. -/
def sizeLength (capacity pos : Nat) : Nat := wrap64 (capacity - pos - 1)

/-- The elements of `char buffer[config.buffer_size * 4]`. -/
def threadCapacity (bufferSize : Int) : Option Nat :=
  (toInt (bufferSize * 4)).bind fun size => if 0 < size then some size.toNat else none

/-- A length that is defined leaves a byte behind what it reads at the position. -/
def Fits (length : Option Nat) (pos : Nat) (capacity : Option Nat) : Prop :=
  ∃ count size, length = some count ∧ capacity = some size ∧ count + pos + 1 ≤ size

end Sizes

section Loops

structure ClientBuffer where
  capacity : Nat
  pos : Nat

/-- `malloc(config.buffer_size)`; without the memory the connection is refused. -/
def openBuffer (malloc : Nat → Bool) (bufferSize : Int) : Option ClientBuffer :=
  if malloc (wrap64 bufferSize) then some ⟨wrap64 bufferSize, 0⟩ else none

/-- Both client loops run the command that was read, and start over. -/
def clientPass (buffer : ClientBuffer) (received : Nat) : ClientBuffer :=
  let filled := { buffer with pos := buffer.pos + received }
  { filled with pos := 0 }

/-- The replication thread keeps what is behind the last line end. -/
def threadPass (held chunk : Bytes) : Bytes := (crlfLines 0 [] (held ++ chunk)).2

theorem thread_pass_buffer (oracle : Nat → Oracle) (chunk : Bytes) (server : Server) :
    (receiveFromPrimary oracle chunk server).1.replicaBuffer =
      threadPass server.replicaBuffer chunk := rfl

/-- In every pass of `handle_client`. -/
def HandleClientFits (malloc : Nat → Bool) (bufferSize : Int) : Prop :=
  ∀ start, openBuffer malloc bufferSize = some start → ∀ counts,
    Admitted (fun buffer count => count ≤ sizeLength buffer.capacity buffer.pos) clientPass start counts →
      let buffer := run clientPass start counts
      Fits (some (sizeLength buffer.capacity buffer.pos)) buffer.pos (some buffer.capacity)

/-- In every call of `handle_client_message`. -/
def HandleClientMessageFits (malloc : Nat → Bool) (bufferSize : Int) : Prop :=
  ∀ start, openBuffer malloc bufferSize = some start → ∀ counts,
    Admitted (fun buffer count => ∀ length ∈ intLength bufferSize buffer.pos, count ≤ length) clientPass
        start counts →
      let buffer := run clientPass start counts
      Fits (intLength bufferSize buffer.pos) buffer.pos (some buffer.capacity)

/-- In every pass of `replication_thread` that receives. -/
def ReplicationThreadFits (bufferSize : Int) : Prop :=
  ∀ chunks,
    Admitted (fun held chunk => ∀ length ∈ intLength bufferSize held.length,
        (chunk : Bytes).length ≤ length) threadPass [] chunks →
      let held := run threadPass [] chunks
      Fits (intLength bufferSize held.length) held.length (threadCapacity bufferSize)

end Loops

section Clients

theorem client_pos (start : ClientBuffer) (counts : List Nat) (empty : start.pos = 0) :
    run clientPass start counts = start := by
  induction counts generalizing start with
  | nil => rfl
  | cons count rest ih =>
      have same : clientPass start count = start := by
        cases start
        simp only [clientPass, ClientBuffer.mk.injEq, true_and]
        exact empty.symm
      rw [run, List.foldl_cons, same]
      exact ih start empty

theorem open_buffer_some (malloc : Nat → Bool) (bufferSize : Int) (start : ClientBuffer) :
    openBuffer malloc bufferSize = some start ↔
      malloc (wrap64 bufferSize) = true ∧ start = ⟨wrap64 bufferSize, 0⟩ := by
  rw [openBuffer]
  split
  case isTrue memory => simp [memory, eq_comm]
  case isFalse refused => simp [refused]

/-- The subtraction of `size_t` values wraps for an empty buffer only. -/
theorem handle_client_iff (malloc : Nat → Bool) (bufferSize : Int) (least : -2 ^ 31 ≤ bufferSize)
    (most : bufferSize < 2 ^ 31) :
    HandleClientFits malloc bufferSize ↔ bufferSize ≠ 0 ∨ malloc 0 = false := by
  have length (some : bufferSize ≠ 0) :
      sizeLength (wrap64 bufferSize) 0 + 0 + 1 ≤ wrap64 bufferSize := by
    simp only [sizeLength, wrap64]
    omega
  constructor
  · intro fits
    by_cases empty : bufferSize = 0
    · right
      cases memory : malloc 0 with
      | false => rfl
      | true =>
          have opened : openBuffer malloc bufferSize = some ⟨0, 0⟩ := by
            rw [open_buffer_some, empty]
            exact ⟨memory, rfl⟩
          obtain ⟨count, size, -, capacity, room⟩ := fits ⟨0, 0⟩ opened [] trivial
          obtain rfl := Option.some.inj capacity
          exact absurd room (by simp [run])
    · exact Or.inl empty
  · intro good start opened counts _
    obtain ⟨memory, rfl⟩ := (open_buffer_some malloc bufferSize start).mp opened
    simp only [client_pos ⟨wrap64 bufferSize, 0⟩ counts rfl]
    refine ⟨_, _, rfl, rfl, length ?_⟩
    rintro rfl
    rcases good with wrong | refused
    · exact wrong rfl
    · rw [show wrap64 0 = 0 from rfl, refused] at memory
      cases memory

/-- The subtraction of `int` values leaves a negative length for an empty buffer, and is undefined
    for the least size. -/
theorem handle_client_message_iff (malloc : Nat → Bool) (bufferSize : Int)
    (least : -2 ^ 31 ≤ bufferSize) (most : bufferSize < 2 ^ 31) :
    HandleClientMessageFits malloc bufferSize ↔
      (bufferSize ≠ 0 ∧ bufferSize ≠ -2 ^ 31) ∨ malloc (wrap64 bufferSize) = false := by
  have length : intLength bufferSize 0 =
      if bufferSize = -2 ^ 31 then none else some (wrap64 (bufferSize - 1)) := by
    have first : toInt (bufferSize - (0 : Nat)) = some bufferSize := by
      rw [Int.natCast_zero, Int.sub_zero, toInt, if_pos ⟨least, most⟩]
    rw [intLength, first, Option.bind_some, toInt]
    by_cases lowest : bufferSize = -2 ^ 31
    · rw [if_pos lowest, if_neg (by omega)]
      rfl
    · rw [if_neg lowest, if_pos (by omega)]
      rfl
  constructor
  · intro fits
    cases memory : malloc (wrap64 bufferSize) with
    | false => exact Or.inr rfl
    | true =>
        have opened := (open_buffer_some malloc bufferSize _).mpr ⟨memory, rfl⟩
        obtain ⟨count, size, asked, capacity, room⟩ := fits _ opened [] trivial
        obtain rfl := Option.some.inj capacity
        simp only [run, List.foldl_nil, length] at asked room
        split at asked
        case isTrue => cases asked
        case isFalse lowest =>
          obtain rfl := Option.some.inj asked
          refine Or.inl ⟨?_, lowest⟩
          rintro rfl
          simp only [wrap64] at room
          omega
  · intro good start opened counts _
    obtain ⟨memory, rfl⟩ := (open_buffer_some malloc bufferSize start).mp opened
    simp only [client_pos ⟨wrap64 bufferSize, 0⟩ counts rfl, length]
    rcases good with ⟨some, lowest⟩ | refused
    · rw [if_neg lowest]
      refine ⟨_, _, rfl, rfl, ?_⟩
      simp only [wrap64]
      omega
    · rw [refused] at memory
      cases memory

end Clients

section Thread

theorem thread_pass_length (held chunk : Bytes) :
    (threadPass held chunk).length ≤ held.length + chunk.length := by
  have joined := congrArg List.length (crlf_lines_join (held ++ chunk)).1
  rw [List.length_append, List.length_append] at joined
  rw [threadPass]
  omega

theorem int_length_room (bufferSize : Int) (pos : Nat) (most : bufferSize < 2 ^ 31)
    (room : pos < bufferSize) : intLength bufferSize pos = some (bufferSize - pos - 1).toNat := by
  have first : toInt (bufferSize - pos) = some (bufferSize - pos) := if_pos (by omega)
  have second : toInt (bufferSize - pos - 1) = some (bufferSize - pos - 1) := if_pos (by omega)
  rw [intLength, first, Option.bind_some, second, Option.map_some, wrap64, Int.emod_eq_of_lt (by omega)
    (by omega)]

/-- What the thread holds leaves room for a terminator. -/
theorem thread_held (bufferSize : Int) (some : 0 < bufferSize) (most : bufferSize < 2 ^ 31)
    (chunks : List Bytes)
    (admitted : Admitted (fun held chunk => ∀ length ∈ intLength bufferSize held.length,
      (chunk : Bytes).length ≤ length) threadPass [] chunks) :
    (run threadPass [] chunks).length < bufferSize := by
  refine @run_invariant _ _ _ threadPass (fun held => (held.length : Int) < bufferSize) ?_ []
    (by simpa using some) chunks admitted
  intro held chunk room within
  have short := within _ (int_length_room bufferSize held.length most room)
  have kept := thread_pass_length held chunk
  omega

theorem replication_thread_iff (bufferSize : Int) (least : -2 ^ 31 ≤ bufferSize)
    (most : bufferSize < 2 ^ 31) :
    ReplicationThreadFits bufferSize ↔ 1 ≤ bufferSize ∧ bufferSize < 2 ^ 29 := by
  constructor
  · intro fits
    obtain ⟨count, size, -, capacity, -⟩ := fits [] trivial
    simp only [threadCapacity, toInt] at capacity
    split at capacity
    case isFalse => cases capacity
    case isTrue bounds =>
      simp only [Option.bind_some] at capacity
      split at capacity
      case isFalse => cases capacity
      case isTrue positive => omega
  · rintro ⟨some, bound⟩ chunks admitted
    have room := thread_held bufferSize (by omega) most chunks admitted
    have capacity : threadCapacity bufferSize = Option.some (bufferSize * 4).toNat := by
      rw [threadCapacity, toInt, if_pos (by omega), Option.bind_some, if_pos (by omega)]
    refine ⟨_, _, int_length_room bufferSize _ most room, capacity, ?_⟩
    omega

end Thread

section Configurations

theorem atoi_range (text : Bytes) : -2 ^ 31 ≤ atoi text ∧ atoi text < 2 ^ 31 := by
  have least := Int.le_bmod (x := (strtoll text).1) (m := 2 ^ 32) (by decide)
  have most := Int.bmod_lt (x := (strtoll text).1) (m := 2 ^ 32) (by decide)
  simp only [atoi]
  omega

def IntSize (config : Config) : Prop := -2 ^ 31 ≤ config.bufferSize ∧ config.bufferSize < 2 ^ 31

theorem setting_int_size (key value : Bytes) (read : Setting) (named : setting key value = some read)
    (config : Config) (size : IntSize config) : IntSize (read.apply config) := by
  simp only [setting, assignment] at named
  split_ifs at named
  all_goals cases named
  all_goals first
    | exact size
    | exact atoi_range value

theorem read_int_size (line : Bytes) (read : Setting) (found : readBuffer line = some read)
    (config : Config) (size : IntSize config) : IntSize (read.apply config) := by
  rw [readBuffer] at found
  split at found
  case isTrue => cases found
  case isFalse =>
    obtain ⟨⟨key, value⟩, -, named⟩ := Option.bind_eq_some_iff.mp found
    exact setting_int_size key value read named config size

theorem loaded_int_size (file : Option Bytes) :
    IntSize (loadConfigFromFile file loadDefaultConfig).1 := by
  have lines (count : Nat) (stream : Bytes) (config : Config) (size : IntSize config) :
      IntSize (loadLines count stream config) := by
    induction count generalizing stream config with
    | zero => exact size
    | succ count ih =>
        rw [loadLines]
        split
        · exact size
        · apply ih
          split
          · exact size
          case h_2 read found => exact read_int_size _ read found config size
  cases file with
  | none => exact ⟨by decide, by decide⟩
  | some contents => exact lines _ _ _ ⟨by decide, by decide⟩

/-- The size that a file leaves, or the default where it sets none. -/
def configuredSize (file : Option Bytes) : Int :=
  (loadConfigFromFile file loadDefaultConfig).1.bufferSize

/-- With the configuration of any file, every length of the three loops fits exactly when the size is
    one that four times fits an `int` and that is not below one; each client loop alone takes more. -/
theorem lengths_fit_iff (file : Option Bytes) (malloc : Nat → Bool) :
    ((HandleClientFits malloc (configuredSize file) ∧
          HandleClientMessageFits malloc (configuredSize file) ∧
          ReplicationThreadFits (configuredSize file)) ↔
        1 ≤ configuredSize file ∧ configuredSize file < 2 ^ 29) ∧
      (HandleClientFits malloc (configuredSize file) ↔ configuredSize file ≠ 0 ∨ malloc 0 = false) ∧
      (HandleClientMessageFits malloc (configuredSize file) ↔
        (configuredSize file ≠ 0 ∧ configuredSize file ≠ -2 ^ 31) ∨
          malloc (wrap64 (configuredSize file)) = false) := by
  obtain ⟨least, most⟩ := loaded_int_size file
  rw [← configuredSize] at least most
  have client := handle_client_iff malloc _ least most
  have message := handle_client_message_iff malloc _ least most
  refine ⟨?_, client, message⟩
  rw [client, message, replication_thread_iff _ least most]
  constructor
  · exact fun all => all.2.2
  · intro bounds
    exact ⟨Or.inl (by omega), Or.inl (by omega), bounds⟩

/-- A line that sets the size to zero: no loop has room, and the length is the largest `size_t`. -/
theorem zero_size_overruns :
    configuredSize (some (ascii "buffer_size 0\n")) = 0 ∧
      sizeLength 0 0 = 2 ^ 64 - 1 ∧ intLength 0 0 = some (2 ^ 64 - 1) ∧
      ¬ HandleClientFits (fun _ => true) 0 ∧ ¬ HandleClientMessageFits (fun _ => true) 0 ∧
      ¬ ReplicationThreadFits 0 := by
  refine ⟨by decide +kernel, by decide, by decide, ?_, ?_, ?_⟩
  · rw [handle_client_iff _ 0 (by decide) (by decide)]
    decide
  · rw [handle_client_message_iff _ 0 (by decide) (by decide)]
    decide
  · rw [replication_thread_iff 0 (by decide) (by decide)]
    decide

end Configurations

end CrimsonCache.ReadLengths
