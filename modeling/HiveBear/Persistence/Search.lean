/-
# Searching conversations

What the user looks for is put between two `%` and handed to LIKE as a pattern, as it is. A title
that contains it is found in any case. A percent sign or an underscore in it does not only stand for
itself, though, and other titles may be found as well.
-/

import HiveBear.Library.Like
import HiveBear.Persistence.ConversationStore

namespace HiveBear.Persistence

open Like PartialMaps StableSort

/-- The rows whose titles match the query, most recent first. -/
def matchingRows (db : ChatDatabase) (query : String) : List ConversationRow :=
  sortBy (fun a b => compare b.updatedAt a.updatedAt)
    (db.parents.filter fun row => like (anywhere query.toList) row.title.toList)

/-- Search conversations by title. -/
def searchConversations (call : Call) (db : ChatDatabase) (query : String) :
    Except PersistenceError (List Conversation) :=
  call.execute 0 ((matchingRows db query).mapM (readConversation db))

/-! ## What is found -/

/-- The row that a conversation was read from. -/
def Conversation.row (conversation : Conversation) : ConversationRow :=
  ⟨conversation.id, conversation.title, conversation.modelId, conversation.createdAt,
    conversation.updatedAt⟩

/-- The conversations with the query in their titles are found, each once, and no others. -/
def FindsTitles (db : ChatDatabase) (query : String) : Prop :=
  ∀ call found, searchConversations call db query = .ok found →
    (found.map Conversation.row).Perm
      (db.parents.filter fun row => decide (Occurs query.toList row.title.toList))

/-- The numbers of messages fit the type they are read as. -/
def Countable (db : ChatDatabase) : Prop :=
  ∀ row ∈ db.parents, (messagesOf db row.id).length < 2 ^ 32

section

variable {db : ChatDatabase} {query : String} {found : List Conversation}

/-- What a search answers are the matching rows. -/
theorem rows_of_search {call : Call} (h : searchConversations call db query = .ok found) :
    found.map Conversation.row = matchingRows db query := by
  have hrow {row : ConversationRow} {conversation : Conversation}
      (h : readConversation db row = some conversation) : conversation.row = row := by
    rw [(readConversation_eq_some_iff.mp h).2]
    rfl
  have hrows : found.map Conversation.row = (matchingRows db query).map id :=
    map_of_mapM hrow (Call.of_execute h)
  rwa [List.map_id] at hrows

theorem mem_matchingRows {row : ConversationRow} : row ∈ matchingRows db query ↔
    row ∈ db.parents ∧ like (anywhere query.toList) row.title.toList = true := by
  rw [matchingRows, mem_sortBy, List.mem_filter]

/-- A call of which no statement fails. -/
def quietCall : Call := ⟨"1", "now", fun _ => false⟩

theorem exists_search (h : Countable db) (query : String) :
    ∃ found, searchConversations quietCall db query = .ok found := by
  obtain ⟨found, hfound⟩ : ∃ found, (matchingRows db query).mapM (readConversation db) =
      some found := exists_mapM fun row hrow =>
    ⟨_, readConversation_eq_some_iff.mpr ⟨h row (mem_matchingRows.mp hrow).1, rfl⟩⟩
  refine ⟨found, ?_⟩
  rw [searchConversations, hfound]
  rfl

/-- A search is right if every title that matches contains the query. -/
theorem findsTitles_of_contain (h : ∀ row ∈ db.parents,
    like (anywhere query.toList) row.title.toList = true →
      Occurs query.toList row.title.toList) : FindsTitles db query := by
  intro call found hfound
  have hrows : db.parents.filter (fun row => like (anywhere query.toList) row.title.toList) =
      db.parents.filter fun row => decide (Occurs query.toList row.title.toList) := by
    refine List.filter_congr fun row hrow => Bool.eq_iff_iff.mpr ?_
    rw [decide_eq_true_iff]
    exact ⟨h row hrow, like_anywhere_of_occurs⟩
  rw [rows_of_search hfound, ← hrows]
  exact perm_sortBy _ _

theorem contain_of_findsTitles (hcount : Countable db) (h : FindsTitles db query) :
    ∀ row ∈ db.parents, like (anywhere query.toList) row.title.toList = true →
      Occurs query.toList row.title.toList := by
  intro row hrow hlike
  obtain ⟨found, hfound⟩ := exists_search hcount query
  have hperm := h _ _ hfound
  rw [rows_of_search hfound] at hperm
  have hmem := hperm.mem_iff.mp (mem_matchingRows.mpr ⟨hrow, hlike⟩)
  exact of_decide_eq_true (List.mem_filter.mp hmem).2

end

/-! ## When the search is literal -/

/-- A new database with one conversation. -/
def oneConversation (title : String) : ChatDatabase :=
  (createConversation quietCall openInMemory title "model").2

theorem countable_oneConversation (title : String) : Countable (oneConversation title) :=
  fun _ _ => Nat.two_pow_pos 32

/-- A title is found though the query is not in it. -/
theorem not_findsTitles {title query : String}
    (hlike : like (anywhere query.toList) title.toList = true)
    (hoccurs : ¬ Occurs query.toList title.toList) :
    ¬ FindsTitles (oneConversation title) query := fun hfinds =>
  hoccurs (contain_of_findsTitles (countable_oneConversation title) hfinds
    ⟨"1", title, "model", "now", "now"⟩ List.mem_cons_self hlike)

/-- **When the search is literal.** A query finds the titles that contain it, whatever
conversations there are, just if it has no percent sign and no underscore. With one, it does so
where no other title matches. -/
theorem searchConversations_literal_iff (query : String) :
    ((∀ db, FindsTitles db query) ↔ ∀ c ∈ query.toList, ¬ Wildcard c) ∧
      ∀ db, Countable db → (FindsTitles db query ↔ ∀ row ∈ db.parents,
        like (anywhere query.toList) row.title.toList = true →
          Occurs query.toList row.title.toList) := by
  refine ⟨⟨fun hfinds => ?_, fun h db => ?_⟩, fun db hcount => ?_⟩
  · by_contra hwildcard
    push Not at hwildcard
    have htitle : (String.ofList (sample query.toList)).toList = sample query.toList :=
      String.toList_ofList
    refine not_findsTitles ?_ ?_ (hfinds (oneConversation (String.ofList (sample query.toList))))
    · rw [htitle]
      exact like_anywhere_sample query.toList
    · rw [htitle]
      exact not_occurs_sample hwildcard
  · exact findsTitles_of_contain fun row _ => (like_anywhere_iff_occurs h).mp
  · exact ⟨contain_of_findsTitles hcount, findsTitles_of_contain⟩

/-- "100%" finds a conversation on 1000 bees. -/
theorem percent_sign_not_literal : ¬ FindsTitles (oneConversation "1000 bees") "100%" :=
  not_findsTitles (by decide +kernel) (by decide +kernel)

end HiveBear.Persistence
