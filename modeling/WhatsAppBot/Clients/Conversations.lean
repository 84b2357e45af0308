import WhatsAppBot.Lib.Resort
import WhatsAppBot.Store.Rows

/-!
# The conversation list

`ConversationRepository.list` orders the operators' list; the mobile app sorts each page again
(`_sortConversations`) and the dashboard marks the rows that wait for somebody
(`isUnclaimedLead`). Each has its own idea of an unclaimed lead.
-/

set_option autoImplicit false

namespace Clients

open Lib Store

/-- `ConversationRead`, as far as the lists read it. -/
structure ConversationRead extends Conversation where
  updatedAt : Time

/-! ## The server -/

/-- `_UNCLAIMED_LEAD`. -/
def unclaimedLead (c : ConversationRead) : Bool :=
  c.status == .active && c.tag == some tagSalesLead && c.mode == .human && c.assignedOperator == none

/-- `_UNCLAIMED_LEAD_FIRST`. -/
def unclaimedLeadFirst (c : ConversationRead) : Nat := if unclaimedLead c then 0 else 1

/-- What the rows are ordered by. -/
def orderKey (c : ConversationRead) : Nat × Time := (unclaimedLeadFirst c, c.updatedAt)

/-- `order_by(_UNCLAIMED_LEAD_FIRST, updated_at.desc())`. -/
def OrderBy (j k : Nat × Time) : Prop := j.1 < k.1 ∨ j.1 = k.1 ∧ k.2 ≤ j.2

/-- `list`; rows with equal keys come in any order. -/
def IsPage (rows : List ConversationRead) (offset limit : Nat) (status : Option Status)
    (page : List ConversationRead) : Prop :=
  ∃ ordered : List ConversationRead,
    ordered.Perm (rows.filter fun c => status.all (c.status == ·)) ∧
      ordered.Pairwise (fun a b => OrderBy (orderKey a) (orderKey b)) ∧
        page = (ordered.drop offset).take limit

/-! ## The mobile app -/

/-- `a.compareTo(b)` of two strings. -/
def compareTo (a b : String) : Int := if a < b then -1 else if a = b then 0 else 1

def mobileLead (c : ConversationRead) : Int :=
  if c.tag == some tagSalesLead && c.status == .active then 1 else 0

/-- The API writes a time as a string, which is what the app compares. -/
abbrev Written := Time → String

/-- The comparison of `_sortConversations`. -/
def compareConversations (written : Written) (a b : ConversationRead) : Int :=
  if mobileLead a ≠ mobileLead b then mobileLead b - mobileLead a
  else compareTo (written b.updatedAt) (written a.updatedAt)

/-- `_sortConversations`: `List.sort` promises nothing on rows that compare equal. -/
def SortConversations (written : Written) : List ConversationRead → List ConversationRead → Prop :=
  IsSort fun a b => decide (compareConversations written a b ≤ 0)

/-! ## The dashboard -/

/-- `isUnclaimedLead`; an empty name is falsy. -/
def isUnclaimedLead (c : ConversationRead) : Bool :=
  c.tag == some tagSalesLead && c.mode == .human &&
    !(c.assignedOperator.any fun operator => operator != "")

end Clients
