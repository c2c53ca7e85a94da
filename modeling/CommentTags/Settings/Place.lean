import CommentTags.Files.Basic

/-!
# Where settings are kept

The files of the program lie in a directory of their own, below the directory for the configuration
of a user: the one that a variable of the environment names, or else a fixed one in the home of the
user.
-/

namespace CommentTags

/-- What the surroundings tell about the user. -/
structure Surroundings where
  /-- The directory for configuration, if one is named. -/
  configurationHome : Option String := none
  /-- The home of the user, if one is named. -/
  home : Option String := none
  /-- The home of the user that is known without the environment. -/
  registeredHome : Option String := none
  deriving Repr, DecidableEq

namespace Surroundings

/-- The home of the user; an empty name does not count. -/
def userHome (s : Surroundings) : Option String :=
  (s.home.filter (· ≠ "")).or s.registeredHome

/-- The directory of the program. -/
def directory? (s : Surroundings) : Option String :=
  (s.configurationHome.or (s.userHome.map (joinPath · ".config"))).map (joinPath · "tagline")

/-- The file with the settings. -/
def settingsFile? (s : Surroundings) : Option String :=
  s.directory?.map (joinPath · "config.yaml")

/-- The directory with the comment syntax of languages. -/
def languagesDirectory? (s : Surroundings) : Option String :=
  s.directory?.map (joinPath · "languages")

/-- The directory for logs. -/
def logsDirectory? (s : Surroundings) : Option String :=
  s.directory?.map (joinPath · "logs")

end Surroundings

end CommentTags
