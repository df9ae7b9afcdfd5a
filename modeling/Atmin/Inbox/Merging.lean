import Atmin.Data.Firsts
import Atmin.Inbox.Outcome

/-!
# Merging into an archive

Deduplication keeps the first entry of each `msg_id`, so an archive that grows compaction by
compaction holds what one compaction of everything would have written.
-/

namespace Atmin

open Interaction

namespace Cbor

def msgId (entry : Value) : Option String := getText entry "msg_id"

theorem deduplicateFrom_firsts (seen : List String) (objects : List Value) :
    deduplicateFrom seen objects = Firsts.firsts msgId seen objects := by
  induction objects generalizing seen with
  | nil => rfl
  | cons obj rest ih =>
    cases named : getText obj "msg_id" with
    | none => simp only [deduplicateFrom, Firsts.firsts, msgId, named, ih]
    | some id => simp only [deduplicateFrom, Firsts.firsts, msgId, named, ih]

theorem deduplicate_firsts (objects : List Value) :
    deduplicateByMsgId objects = Firsts.firsts msgId [] objects :=
  deduplicateFrom_firsts [] objects

/-- What a compaction writes: existing entries first, then the new ones. -/
def merge (existing newObjects : List Value) : List Value :=
  deduplicateByMsgId (existing ++ newObjects)

/-- Deduplicating again, or deduplicating a beginning first, makes no difference. What is left is a
subsequence, with of every `msg_id` the first entry alone, and all entries without one. Merging
batch by batch is therefore merging them all at once. -/
theorem deduplicate_merges (a b : List Value) (batches : List (List Value)) :
    deduplicateByMsgId (deduplicateByMsgId a ++ b) = deduplicateByMsgId (a ++ b) ∧
    deduplicateByMsgId (deduplicateByMsgId a) = deduplicateByMsgId a ∧
    (deduplicateByMsgId a).Sublist a ∧
    (∀ id, (deduplicateByMsgId a).filter (fun x => decide (getText x "msg_id" = some id)) =
      (a.find? fun x => decide (getText x "msg_id" = some id)).toList) ∧
    (deduplicateByMsgId a).filter (fun x => decide (getText x "msg_id" = none)) =
      a.filter (fun x => decide (getText x "msg_id" = none)) ∧
    batches.foldl merge [] = deduplicateByMsgId batches.flatten := by
  simp only [deduplicate_firsts]
  refine ⟨Firsts.firsts_merge msgId a b, Firsts.firsts_firsts msgId (fun _ => id) a,
    Firsts.firsts_sublist msgId [] a, ?_, Firsts.filter_unkeyed_firsts msgId [] a, ?_⟩
  · intro id
    have first := Firsts.filter_keyed_firsts msgId [] a id
    rw [if_neg List.not_mem_nil, List.take_one, List.head?_filter] at first
    exact first
  · have same : merge = fun existing new => Firsts.firsts msgId [] (existing ++ new) := by
      funext existing new
      exact deduplicate_firsts _
    rw [same]
    exact Firsts.firsts_foldl_nil msgId batches

end Cbor

end Atmin
