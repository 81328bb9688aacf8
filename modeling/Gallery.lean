import Gallery.Peer
import Gallery.Album
import Gallery.Linear
import Gallery.LinkedList.Nodes
import Gallery.RingList.Operations
import Gallery.RingList.Release
import Gallery.Peer.Refinement
import Gallery.Peer.Transfer
import Gallery.Peer.Files
import Gallery.Peer.Tables
import Gallery.Peer.Accept
import Gallery.Peer.Serving.Theorems
import Gallery.Membership.Agreement
import Gallery.Membership.Broadcast
import Gallery.IdService
import Gallery.Gateway.Rotation
import Gallery.Gateway.Messages
import Gallery.Gateway.Identities
import Gallery.Gateway.Datagrams
import Gallery.Gateway.Threads
import Gallery.Gateway.Registration
import Gallery.Library.Replies
import Gallery.Library.Upload
import Gallery.Library.Keywords
import Gallery.Library.Session
import Gallery.Library.Connect
import Gallery.Client.Runs
import Gallery.Socket.Framing
import Gallery.Socket.Sending
import Gallery.Cluster.Convergence
import Gallery.Cluster.Keywords
import Gallery.Cluster.Durability
import Gallery.Shutdown.Settling
import Gallery.Network.Detection
import Gallery.Network.Outage
import Gallery.Network.Arrival
