import Clepsydra.Vault.PageMeta

/-!
Owns: the kind a page has when it declares none, and the tags it has with the one its kind gives.
-/

namespace Clepsydra.Vault

/-- `str::to_ascii_lowercase`. -/
def asciiLowercase (text : String) : String := String.ofList (text.toList.map Char.toLower)

/-- `str::eq_ignore_ascii_case`. -/
def eqIgnoreAsciiCase (left right : String) : Bool := asciiLowercase left == asciiLowercase right

def Kind.computedTag : Kind → String
  | .note => "note"
  | .project => "project"
  | .journal => "journal"
  | .todo => "todo"
  | .quote => "quote"
  | .book => "book"
  | .capture => "capture"
  | .code => "code"
  | .person => "person"
  | .task => "task"
  | .cycle => "cycle"
  | .recipe => "recipe"
  | .meeting => "meeting"
  | .archive => "archive"
  | .aiConversation => "ai_conversation"
  | .aiJournal => "ai_journal"

/-- `Kind::from_folder`. -/
def Kind.fromFolder (folder : String) : Option Kind :=
  match asciiLowercase folder with
  | "notes" | "note" => some .note
  | "projects" | "project" => some .project
  | "journals" | "journal" | "daily" | "dailies" | "diary" => some .journal
  | "todos" | "todo" => some .todo
  | "quotes" | "quote" => some .quote
  | "books" | "book" | "reading" | "library" => some .book
  | "captures" | "capture" | "inbox" | "clippings" => some .capture
  | "code" | "snippets" => some .code
  | "people" | "persons" | "person" | "contacts" => some .person
  | "tasks" | "task" => some .task
  | "cycles" | "cycle" | "sprints" | "sprint" => some .cycle
  | "recipes" | "recipe" => some .recipe
  | "meetings" | "meeting" | "one-on-ones" | "one-on-one" | "one-to-ones" | "one-to-one" | "1-1s"
  | "1-1" | "1on1s" | "1on1" | "121s" | "121" => some .meeting
  | "archive" | "archives" | "archived" => some .archive
  | "conversations" | "conversation" | "chats" => some .aiConversation
  | "ai-journals" | "ai-journal" => some .aiJournal
  | _ => none

/-- `kind::resolve`, and whether the kind is inferred from the first folder. -/
def Kind.resolve (path : String) (declared : Option Kind) : Kind × Bool :=
  match declared with
  | some kind => (kind, false)
  | none =>
    let top := (path.toList.dropWhile (· = '/')).takeWhile (· ≠ '/')
    ((Kind.fromFolder (asciiLowercase (String.ofList top))).getD .note, true)

/-- `is_computed_tag`. -/
def Kind.isComputedTag (kind : Kind) (tag : String) : Bool :=
  eqIgnoreAsciiCase (trim tag) kind.computedTag

/-- `effective_tags`. -/
def Kind.effectiveTags (kind : Kind) (stored : List String) : List String :=
  stored.foldl (fun effective tag =>
    if kind.isComputedTag (trim tag)
        || effective.any fun seen => eqIgnoreAsciiCase (trim seen) (trim tag) then
      effective
    else effective ++ [tag]) [] ++ [kind.computedTag]

end Clepsydra.Vault
