import Coral.Nearest
import Coral.Lib.Runs
import Coral.ListSequences
import Coral.Agreement
import Coral.Reference
import Coral.RingState
import Coral.LinkedSpec
import Coral.Lib.Nested
import Coral.Calls
import Coral.LinkedCalls
import Coral.Lifetime
import Coral.NestedComparators
import Coral.Lib.Interleave
import Coral.Threads
import Coral.Lib.Readers
import Coral.SharedReaders
import Coral.Rejection
import Coral.Lib.Environment
import Coral.Guarded
import Coral.Invalidation
import Coral.TreeInvalidation
import Coral.LinkedInvalidation
import Coral.ListInvalidation
import Coral.StrayRemoval
import Coral.Lib.Machine
import Coral.Lib.Ownership
import Coral.ListLifecycle
import Coral.Lib.Returns
import Coral.FailedCalls
import Coral.LinkedFailedCalls
import Coral.ListFailedCalls
import Coral.AnyCompare
import Coral.LinkedLifecycle
import Coral.TreeLifecycle
import Coral.Replies
import Coral.LinkedReplies
import Coral.Lib.Questions
import Coral.Comparisons
