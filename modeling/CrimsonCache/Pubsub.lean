import CrimsonCache.Replies
import CrimsonCache.Transaction

/-!
pubsub.c: the channel list and its operations. A subscriber node holds a client
pointer; the socket read through it never changes while the client lives, so it
is kept beside the pointer. Frames are formatted into fixed buffers and cut
where `snprintf` cuts them.
-/

namespace CrimsonCache.Pubsub

open CString Replies Transaction

structure Subscriber where
  ptr : Nat
  socket : Int
  deriving DecidableEq

structure Channel where
  name : Bytes
  subscribers : List Subscriber
  deriving DecidableEq

def subscriber (client : Client) : Subscriber := ⟨client.ptr, client.socket⟩

def findOrCreateChannel (alloc : Bool) (name : Bytes) (channels : List Channel) :
    Option (List Channel) :=
  if channels.any (·.name = name) then some channels
  else if alloc then some (⟨name, []⟩ :: channels)
  else none

def addSubscriber (node : Subscriber) (name : Bytes) : List Channel → List Channel
  | [] => []
  | channel :: rest =>
      if channel.name = name then
        { channel with subscribers := node :: channel.subscribers } :: rest
      else channel :: addSubscriber node name rest

def isSubscribed (ptr : Nat) (name : Bytes) (channels : List Channel) : Bool :=
  match channels.find? (·.name = name) with
  | none => false
  | some channel => channel.subscribers.any (·.ptr = ptr)

def subscribeToChannel (channel node : Bool) (client : Client) (name : Bytes)
    (channels : List Channel) : List Channel × Bool :=
  match findOrCreateChannel channel name channels with
  | none => (channels, false)
  | some channels =>
      if isSubscribed client.ptr name channels then (channels, true)
      else if node then (addSubscriber (subscriber client) name channels, true)
      else (channels, false)

/-- Unlink the first node of a client. -/
def removeSubscriber (ptr : Nat) (subscribers : List Subscriber) : List Subscriber :=
  subscribers.eraseP (·.ptr = ptr)

def unsubscribeFromChannel (client : Client) (name : Bytes) :
    List Channel → List Channel × Bool
  | [] => ([], false)
  | channel :: rest =>
      if channel.name = name then
        if channel.subscribers.any (·.ptr = client.ptr) then
          ({ channel with subscribers := removeSubscriber client.ptr channel.subscribers } :: rest,
            true)
        else (channel :: rest, false)
      else
        let (rest, found) := unsubscribeFromChannel client name rest
        (channel :: rest, found)

def confirmation (kind name : Bytes) (count : Nat) : Bytes :=
  snprintf 256 (ascii "*3\r\n$" ++ decimal kind.length ++ crlf ++ kind ++ crlf ++ ascii "$" ++
    decimal (strlen name) ++ crlf ++ cstr name ++ crlf ++ ascii ":" ++ decimal count ++ crlf)

/-- The loop over the channel arguments; `count` is `success_count`. -/
def subscribeChannels (channel node : Nat → Bool) (client : Client) :
    Nat → Nat → List Bytes → List Channel → List Channel × List Event
  | _, _, [], channels => (channels, [])
  | index, count, name :: rest, channels =>
      -- The count of the confirmation is of this call's successes.
      let (channels, ok) := subscribeToChannel (channel index) (node index) client name channels
      let event : Event :=
        if ok then .write client.socket (confirmation (ascii "subscribe") name (count + 1))
        else .reply client.socket (.error (ascii "err failed to subscribe to channel"))
      let (channels, events) :=
        subscribeChannels channel node client (index + 1) (if ok then count + 1 else count) rest
          channels
      (channels, event :: events)

def pubsubSubscribeClient (channel node : Nat → Bool) (client : Client) (argv : List Bytes)
    (channels : List Channel) : List Channel × List Event :=
  if argv.length < 2 then
    (channels, [.reply client.socket
      (.error (ascii "err wrong number of arguments for 'subscribe' command"))])
  else subscribeChannels channel node client 0 0 argv.tail channels

/-- `unsubscribe` without arguments: one node of the client leaves each channel. -/
def unsubscribeAll (client : Client) : List Channel → List Channel × List Event
  | [] => ([], [])
  | channel :: rest =>
      let (others, events) := unsubscribeAll client rest
      if channel.subscribers.any (·.ptr = client.ptr) then
        ({ channel with subscribers := removeSubscriber client.ptr channel.subscribers } :: others,
          .write client.socket (confirmation (ascii "unsubscribe") channel.name 0) :: events)
      else (channel :: others, events)

def unsubscribeChannels (client : Client) :
    List Bytes → List Channel → List Channel × List Event
  | [], channels => (channels, [])
  | name :: rest, channels =>
      let (channels, found) := unsubscribeFromChannel client name channels
      let (channels, events) := unsubscribeChannels client rest channels
      (channels,
        if found then
          .write client.socket (confirmation (ascii "unsubscribe") name 0) :: events
        else events)

def pubsubUnsubscribeClient (client : Client) (argv : List Bytes) (channels : List Channel) :
    List Channel × List Event :=
  if argv.length = 1 then
    let (channels, events) := unsubscribeAll client channels
    (channels,
      if events.isEmpty then
        [.write client.socket (ascii "*3\r\n$11\r\nunsubscribe\r\n$-1\r\n:0\r\n")]
      else events)
  else unsubscribeChannels client argv.tail channels

def messageFrame (channelName message : Bytes) : Bytes :=
  snprintf 1024 (ascii "*3\r\n$7\r\nmessage\r\n$" ++ decimal (strlen channelName) ++ crlf ++
    cstr channelName ++ crlf ++ ascii "$" ++ decimal (strlen message) ++ crlf ++ cstr message ++
    crlf)

def pubsubPublishMessage (channelName message : Bytes) (channels : List Channel) :
    List Event × Nat :=
  match channels.find? (·.name = channelName) with
  | none => ([], 0)
  | some channel =>
      (channel.subscribers.map fun node => .write node.socket (messageFrame channelName message),
        channel.subscribers.length)

def pubsubRemoveClient (ptr : Nat) (channels : List Channel) : List Channel :=
  channels.map fun channel =>
    { channel with subscribers := removeSubscriber ptr channel.subscribers }

end CrimsonCache.Pubsub
