import Spidercheck.Addresses.Areas
import Spidercheck.Addresses.Scope
import Spidercheck.Addresses.Seeds
import Spidercheck.Checks.Concurrent
import Spidercheck.Checks.ContentTypes
import Spidercheck.Checks.Marks
import Spidercheck.Checks.Markup
import Spidercheck.Checks.Parallel
import Spidercheck.Checks.Values
import Spidercheck.Checks.Widths
import Spidercheck.Dates.Days
import Spidercheck.Dates.Digits
import Spidercheck.Dates.Months
import Spidercheck.Frontier.Coverage
import Spidercheck.Frontier.Crawl
import Spidercheck.Frontier.FirstChecks
import Spidercheck.Frontier.Listing
import Spidercheck.Frontier.Renewal
import Spidercheck.Frontier.Schedules
import Spidercheck.Frontier.Sweep
import Spidercheck.Links.Malformed
import Spidercheck.Search.Documents
import Spidercheck.Search.Stripping
import Spidercheck.Sequences.Batches
import Spidercheck.Sequences.Fragments
import Spidercheck.Sequences.Splitting
import Spidercheck.Sites.Expunge
import Spidercheck.Sites.Reset
import Spidercheck.Sites.Routing
import Spidercheck.Sites.Search
import Spidercheck.Sites.Settling
