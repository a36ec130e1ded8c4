/-
Module: Gvds.Client.QueueChannels
Layer: Client
Purpose: The workers of the write-behind queue with the channels to the IO proxies
  (client/client_worker.cc, get_spare_channel and done_one of client/queue.cc): a worker in TCP mode
  picks the channel with the smallest load for a real buffer, and gives one back when it is done.
Imports: Gvds.Client.QueueThreads
Trusted boundary: as Gvds.Client.QueueThreads. The loads do not leave the range of int; the request
  of a worker in UDT mode is replied to at most once
Main exports: Config, Stage, State, spareChannel, firstStage, Act, step
-/
import Gvds.Client.QueueThreads

namespace Gvds.QueueChannels

open WriteBehind (Buffer QueueConfig)

/-- The configuration with `client.multi_channel`; there is a channel. -/
structure Config extends QueueConfig where
  multi_channel : Nat
  multi_channel_pos : 0 < multi_channel

/-- Where a worker in `Processing` is: it takes no channel, since its buffer is a fake one or it is
in UDT mode; it enters `get_spare_channel`; it has read the load of channel 0 there, before it
takes the lock; its request is on its way on a channel. -/
inductive Stage where
  | noChannel
  | entered
  | read (min_load : Int)
  | inFlight (channel : Nat)
deriving DecidableEq

/-- `ClientBufferQueue` with `channel_loads` and the stages of the workers in `Processing`, in the
order of their buffers. -/
structure State where
  queue : QueueThreads.State
  channel_loads : Nat → Int
  stages : List Stage

/-- `ClientBufferQueue::start`. -/
def start (cfg : Config) : State where
  queue := QueueThreads.start cfg.toQueueConfig
  channel_loads := fun _ => 0
  stages := []

/-- The loop of `get_spare_channel` over some of the channels. -/
def spareChannel (channel_loads : Nat → Int) (channel_id : Nat) (min_load : Int) :
    List Nat → Nat
  | [] => channel_id
  | i :: is =>
      if channel_loads i < min_load then spareChannel channel_loads i (channel_loads i) is
      else spareChannel channel_loads channel_id min_load is

/-- The begin of `Processing::Processing`. -/
def firstStage (cfg : Config) (b : Buffer) : Stage :=
  if b.path = "" ∨ cfg.use_udt = true then .noChannel else .entered

/-- What can happen next: a step of the queue, where the `i`-th worker may see its `BufferComplete`
only after its request is on its way; or the `i`-th worker goes on in `get_spare_channel`. -/
inductive Act where
  | queue (a : QueueThreads.Act)
  | readLoad (i : Nat)
  | choose (i : Nat)

/-- Whether `BufferComplete` can come. -/
def Stage.submitted : Stage → Bool
  | .noChannel => true
  | .inFlight _ => true
  | _ => false

/-- One step of the client. `done_one` is called with channel 0. -/
def step (cfg : Config) (s : State) : Act → Option State
  | .queue (.process i) =>
      s.queue.assigned[i]?.bind fun q =>
        (QueueThreads.step cfg.toQueueConfig s.queue (.process i)).map fun queue =>
          { s with queue := queue, stages := s.stages ++ [firstStage cfg q.buffer] }
  | .queue (.complete i) =>
      if (s.stages[i]?.map Stage.submitted).getD false then
        (QueueThreads.step cfg.toQueueConfig s.queue (.complete i)).map fun queue =>
          { queue := queue
            channel_loads := Function.update s.channel_loads 0 (s.channel_loads 0 - 1)
            stages := s.stages.eraseIdx i }
      else none
  | .queue a =>
      (QueueThreads.step cfg.toQueueConfig s.queue a).map fun queue => { s with queue := queue }
  | .readLoad i =>
      if s.stages[i]? = some .entered then
        some { s with stages := s.stages.set i (.read (s.channel_loads 0)) }
      else none
  | .choose i =>
      match s.stages[i]? with
      | some (.read min_load) =>
          let channel_id := spareChannel s.channel_loads 0 min_load
            (List.range' 1 (cfg.multi_channel - 1))
          some { s with
            channel_loads :=
              Function.update s.channel_loads channel_id (s.channel_loads channel_id + 1)
            stages := s.stages.set i (.inFlight channel_id) }
      | _ => none

end Gvds.QueueChannels
