import MacroAtlas.Store.Fault
import Std.Data.ExtTreeMap

/-!
# Call sites

The table knows, for each site, the file of its last expansion and whether a new one is under way.
Whether the last one is still good is not kept but asked: the caller brings the fingerprint of the
call as it stands.
-/

namespace MacroAtlas

/-- What is known of a call site. -/
inductive SiteEntry where
  /-- An expansion is under way; giving it up brings back the last one. -/
  | expanding (last : Option FileName)
  /-- The last expansion is in this file. -/
  | expanded (file : FileName)
  deriving DecidableEq

namespace SiteEntry

/-- The file of the last expansion. -/
def last? : SiteEntry → Option FileName
  | .expanding last => last
  | .expanded file => some file

/-- The entry once the record of a file is gone; nothing may be left of it. -/
def without? (file : FileName) : SiteEntry → Option SiteEntry
  | .expanding last => some (.expanding (if last = some file then none else last))
  | .expanded other => if other = file then none else some (.expanded other)

end SiteEntry

/-- How a call site stands. -/
inductive SiteState where
  /-- There is no expansion. -/
  | unexpanded
  /-- An expansion is under way. -/
  | expanding
  /-- The expansion in this file is good. -/
  | expanded (file : FileName)
  /-- The expansion in this file was made from another call or macro. -/
  | stale (file : FileName)
  deriving DecidableEq

/-- What is known of all call sites. -/
structure CallSites where
  /-- The entry of each site that was expanded. -/
  entries : Std.ExtTreeMap CallSite SiteEntry compare

namespace CallSites

/-- The table before any expansion. -/
def empty : CallSites := ⟨∅⟩

/-- The entry of a site. -/
def entry? (t : CallSites) (site : CallSite) : Option SiteEntry := t.entries[site]?

/-- The file of the last expansion of a site. -/
def last? (t : CallSites) (site : CallSite) : Option FileName := (t.entry? site).bind (·.last?)

/-- How a site stands, given the fingerprint of its call now. -/
def state (t : CallSites) (site : CallSite) (current : Fingerprint) : SiteState :=
  match t.entry? site with
  | none => .unexpanded
  | some (.expanding _) => .expanding
  | some (.expanded file) =>
    if file.fingerprint? = some current then .expanded file else .stale file

/-- An expansion of a site is under way. -/
def start (t : CallSites) (site : CallSite) : CallSites :=
  ⟨t.entries.insert site (.expanding (t.last? site))⟩

/-- The expansion of a site that is under way, if any, is given up. -/
def giveUp (t : CallSites) (site : CallSite) : CallSites :=
  match t.entry? site with
  | some (.expanding (some file)) => ⟨t.entries.insert site (.expanded file)⟩
  | some (.expanding none) => ⟨t.entries.erase site⟩
  | _ => t

/-- The last expansion of a site is in a file. -/
def finish (t : CallSites) (site : CallSite) (file : FileName) : CallSites :=
  ⟨t.entries.insert site (.expanded file)⟩

/-- No site knows a file any more. -/
def forget (t : CallSites) (file : FileName) : CallSites :=
  ⟨t.entries.filterMap fun _ entry => entry.without? file⟩

end CallSites

end MacroAtlas
